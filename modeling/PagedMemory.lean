import PagedMemory.Machine.Basic
import PagedMemory.Proofs.Address.Linear
import PagedMemory.Proofs.Address.Rounding
import PagedMemory.Proofs.Frames.BootstrapOutcome
import PagedMemory.Proofs.Frames.DirectMap
import PagedMemory.Proofs.Frames.KernelRun
import PagedMemory.Proofs.Frames.Overdraft
import PagedMemory.Proofs.Frames.Refusals
import PagedMemory.Proofs.Frames.Stealing
import PagedMemory.Proofs.Interrupts.Balance
import PagedMemory.Proofs.Machine.DeclarationOrder
import PagedMemory.Proofs.Machine.FirstDeclaration
import PagedMemory.Proofs.Machine.FirstTouch
import PagedMemory.Proofs.Machine.Isolation
import PagedMemory.Proofs.Machine.LegalPages
import PagedMemory.Proofs.Machine.PageMaps
import PagedMemory.Proofs.Machine.Retention
import PagedMemory.Proofs.Machine.Safety
import PagedMemory.Proofs.Machine.Teardown
import PagedMemory.Proofs.Machine.WindowInheritance
import PagedMemory.Proofs.SpinLock.Completion
import PagedMemory.Proofs.Table.Packing
import PagedMemory.Table.Session
