import InstructionTables.Proofs.CheckedBuilds
import InstructionTables.Proofs.ConcatenatedForests
import InstructionTables.Proofs.ConcatenatedPayloads
import InstructionTables.Proofs.CursorMoves
import InstructionTables.Proofs.DeclaredCounts
import InstructionTables.Proofs.DispatchCensus
import InstructionTables.Proofs.DispatchDepth
import InstructionTables.Proofs.DispatchExtension
import InstructionTables.Proofs.DispatchLog
import InstructionTables.Proofs.DispatchNames
import InstructionTables.Proofs.DispatchRewriting
import InstructionTables.Proofs.HandlerCounts
import InstructionTables.Proofs.LazyRequests
import InstructionTables.Proofs.LoggedBuilds
import InstructionTables.Proofs.LookupStability
import InstructionTables.Proofs.RoomChecks
import InstructionTables.Proofs.TemplateAcceptance
import InstructionTables.Proofs.TemplateDensity
import InstructionTables.Proofs.TemplateExtension
import InstructionTables.Proofs.TemplateFamilies
import InstructionTables.Proofs.TemplateFaults
import InstructionTables.Proofs.TemplateFolds
import InstructionTables.Proofs.TemplateLog
import InstructionTables.Proofs.VarintDecoding
import InstructionTables.Proofs.VarintWriting
import InstructionTables.Proofs.WrittenStreams
import InstructionTables.Tables
