import StackMachine.CommandLine
import StackMachine.Hook
import StackMachine.Main
import StackMachine.Proofs.BoundedRecorder
import StackMachine.Proofs.CanonicalText
import StackMachine.Proofs.ChangeLog
import StackMachine.Proofs.CheckedCells
import StackMachine.Proofs.ColumnTypes
import StackMachine.Proofs.CsvRoundTrip
import StackMachine.Proofs.FaultKinds
import StackMachine.Proofs.FreshStart
import StackMachine.Proofs.InstructionPointer
import StackMachine.Proofs.IntegerForms
import StackMachine.Proofs.LayeredSettings
import StackMachine.Proofs.LineGrammar
import StackMachine.Proofs.LoopAndScript
import StackMachine.Proofs.MaximalMunch
import StackMachine.Proofs.MessageTexts
import StackMachine.Proofs.OperandLatch
import StackMachine.Proofs.OperandReaders
import StackMachine.Proofs.OrphanedNotices
import StackMachine.Proofs.ProgramBounds
import StackMachine.Proofs.PromptedLines
import StackMachine.Proofs.Reassembly
import StackMachine.Proofs.RecordedRows
import StackMachine.Proofs.RunBudget
import StackMachine.Proofs.SavedTrace
import StackMachine.Proofs.ScriptPrefix
import StackMachine.Proofs.StackPictures
import StackMachine.Proofs.StagedMode
import StackMachine.Proofs.Statistics
import StackMachine.Proofs.TokenLayout
import StackMachine.Proofs.WiderStack
import StackMachine.Proofs.RunLoop
import StackMachine.Proofs.CsvLibrary
