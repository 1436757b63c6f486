import ResponseFraming.Main
import ResponseFraming.Proofs.Run
import ResponseFraming.Proofs.Course
import ResponseFraming.Proofs.Schedule
import ResponseFraming.Proofs.Order
import ResponseFraming.Proofs.Replay
import ResponseFraming.Proofs.Session
import ResponseFraming.Proofs.Discipline
import ResponseFraming.Proofs.Conservation
import ResponseFraming.Proofs.Callbacks
import ResponseFraming.Proofs.Errors
import ResponseFraming.Proofs.Utf8
import ResponseFraming.Proofs.Command
import ResponseFraming.Proofs.Parts
import ResponseFraming.Proofs.Prompt
import ResponseFraming.Proofs.Receivers
import ResponseFraming.Proofs.Recording
import ResponseFraming.Proofs.Recutting
import ResponseFraming.Proofs.Strictness
import ResponseFraming.Proofs.Bounds
import ResponseFraming.Proofs.Counts
import ResponseFraming.Proofs.Facets
import ResponseFraming.Proofs.Records
import ResponseFraming.Proofs.ReportText
import ResponseFraming.Proofs.Lossy
import ResponseFraming.Proofs.Multimap
import ResponseFraming.Proofs.Assembly
import ResponseFraming.Proofs.Log
import ResponseFraming.Proofs.Decoding
import ResponseFraming.Proofs.ReportJson
import ResponseFraming.Proofs.IllFormed
import ResponseFraming.Proofs.FileTree
import ResponseFraming.Proofs.JsonText
import ResponseFraming.Proofs.Arguments
import ResponseFraming.Proofs.Documents
import ResponseFraming.Proofs.Numbers
