import LibPS4.Elf.Loader
import LibPS4.Elf.View
import LibPS4.Base.Overlay
import LibPS4.Elf.Build
import LibPS4.Proofs.Instantiate
import LibPS4.Proofs.Relocate
import LibPS4.Proofs.Determinism
import LibPS4.Proofs.Containment
import LibPS4.Proofs.Rebase
import LibPS4.Proofs.Named
import LibPS4.Proofs.EndToEnd
import LibPS4.Proofs.Reads
import LibPS4.Proofs.NameReads
import LibPS4.Proofs.FileBounds
import LibPS4.Base.X64
import LibPS4.Stub.Template
import LibPS4.Base.Text
import LibPS4.Base.Routine
import LibPS4.Proofs.PushPop
import LibPS4.Proofs.StubRun
import LibPS4.Proofs.SlowPath
import LibPS4.Proofs.Transparent
import LibPS4.Stub.Resolve
import LibPS4.Proofs.Arguments
import LibPS4.Proofs.Cells
import LibPS4.Base.Cells
import LibPS4.Proofs.Caches
import LibPS4.Proofs.Handlers
import LibPS4.Proofs.Layout
import LibPS4.Base.Calls
import LibPS4.Memory.System
import LibPS4.Memory.Named
import LibPS4.Proofs.Interleavings
import LibPS4.Proofs.NamedMemory
import LibPS4.Base.Ledger
import LibPS4.Memory.Protected
import LibPS4.Proofs.ProtectedMemory
import LibPS4.Proofs.SectionNames
import LibPS4.Proofs.Faults
import LibPS4.Proofs.Processed
import LibPS4.Proofs.Decode
import LibPS4.Base.Strings
import LibPS4.Base.Cursor
import LibPS4.Elf.Dynamic
import LibPS4.Proofs.Enumerate
import LibPS4.Proofs.Strings
import LibPS4.Proofs.Offsets
import LibPS4.Proofs.Rounding
import LibPS4.Proofs.Dynamics
import LibPS4.Proofs.StubTypes
import LibPS4.Proofs.StackDiscipline
import LibPS4.Kernel.Symbols
import LibPS4.Proofs.KernelSymbols
import LibPS4.Proofs.Fallback
import LibPS4.Base.Answered
import LibPS4.Base.Holding
import LibPS4.Base.Rename
import LibPS4.Elf.Loaded
import LibPS4.Kernel.Image
import LibPS4.Proofs.CallRuns
import LibPS4.Proofs.KernelImage
import LibPS4.Proofs.KernelRuns
import LibPS4.Proofs.LoadedImage
import LibPS4.Proofs.LoadReads
import LibPS4.Proofs.SideBySide
import LibPS4.Proofs.MixedModes
import LibPS4.Proofs.NamedPersist
import LibPS4.Proofs.NamedRuns
import LibPS4.Proofs.ProtectedRuns
import LibPS4.Base.Written
import LibPS4.Proofs.FileLayout
import LibPS4.Proofs.LinkedModule
import LibPS4.Proofs.Observers
import LibPS4.Kernel.Resolve
import LibPS4.Proofs.KernelBinding
