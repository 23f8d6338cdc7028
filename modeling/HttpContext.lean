import HttpContext.Context.Script
import HttpContext.Context.Serve
import HttpContext.Config.Document
import HttpContext.Proofs.Attempts
import HttpContext.Proofs.Writing
import HttpContext.Proofs.Alike
import HttpContext.Proofs.Release
import HttpContext.Proofs.Twins
import HttpContext.Proofs.Agreement
import HttpContext.Proofs.Continuation
import HttpContext.Proofs.Copying
import HttpContext.Proofs.Endings
import HttpContext.Proofs.Teardown
import HttpContext.Proofs.Outcome
import HttpContext.Proofs.Delivery
import HttpContext.Proofs.Window
import HttpContext.Proofs.Feeding
import HttpContext.Proofs.Chunked
import HttpContext.Proofs.Progress
import HttpContext.Proofs.WireFormat
import HttpContext.Proofs.Transcript
import HttpContext.Proofs.Preparation
import HttpContext.Proofs.LineBreaks
import HttpContext.Proofs.HeadEnd
import HttpContext.Proofs.Truncation
import HttpContext.Proofs.Framing
import HttpContext.Proofs.LastChunk
import HttpContext.Proofs.Announcement
import HttpContext.Proofs.Reception
import HttpContext.Proofs.RequestText
import HttpContext.Proofs.RangeHeader
import HttpContext.Proofs.Buffering
import HttpContext.Proofs.Seeking
import HttpContext.Proofs.FileSending
import HttpContext.Proofs.Grouping
import HttpContext.Proofs.RequestData
import HttpContext.Proofs.Reading
import HttpContext.Proofs.Spooling
import HttpContext.Proofs.Uploads
import HttpContext.Proofs.PartHeaders
import HttpContext.Proofs.Parts
import HttpContext.Proofs.Emission
import HttpContext.Proofs.FormFailure
import HttpContext.Proofs.Closing
import HttpContext.Proofs.Refusal
import HttpContext.Proofs.Cutoff
import HttpContext.Proofs.Fragments
import HttpContext.Proofs.UnusedSender
import HttpContext.Proofs.QuotedNames
import HttpContext.Proofs.PartialBody
import HttpContext.Form.Scan
import HttpContext.Message.Draft
import HttpContext.Proofs.BodyLimit
import HttpContext.Proofs.Finality
import HttpContext.Proofs.Leftovers
import HttpContext.Proofs.RangeGrammar
import HttpContext.Proofs.Positions
import HttpContext.Message.WordRange
import HttpContext.Form.Sharing
import HttpContext.Context.Schedule
import HttpContext.Proofs.RangeBounds
import HttpContext.Proofs.SharedUpload
import HttpContext.Proofs.Dispatching
import HttpContext.Proofs.Realization
import HttpContext.Value.Edit
import HttpContext.Message.HeaderEdit
import HttpContext.Proofs.LiveValues
import HttpContext.Proofs.HeaderEdits
import HttpContext.Proofs.SavedSettings
