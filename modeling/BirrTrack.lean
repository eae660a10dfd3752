import BirrTrack.Js.Number
import BirrTrack.Foundation.Backtracking
import BirrTrack.Foundation.EventMachine
import BirrTrack.Foundation.Calendar
import BirrTrack.Js.Date
import BirrTrack.Database.Columns
import BirrTrack.Foundation.Procedure
import BirrTrack.Transactions.Entity
import BirrTrack.Transactions.Dto
import BirrTrack.Transactions.Service
import BirrTrack.Transactions.Update
import BirrTrack.Transactions.Audit
import BirrTrack.Transactions.Postcondition
import BirrTrack.Transactions.ConcurrentEdits
import BirrTrack.Processing.Parsing
import BirrTrack.Processing.Amount
import BirrTrack.Transactions.Creation
import BirrTrack.OcrService.Parser
import BirrTrack.Processing.TimestampPaths
import BirrTrack.Processing.Service
import BirrTrack.Processing.Recording
import BirrTrack.Processing.Retries
import BirrTrack.Processing.Confidentiality
import BirrTrack.Processing.ConcurrentJobs
import BirrTrack.Processing.DuplicateFlags
import BirrTrack.Processing.IsoInstants
import BirrTrack.Telegram.Service
import BirrTrack.Telegram.Webhook
import BirrTrack.Foundation.Pages
import BirrTrack.Transactions.Pages
import BirrTrack.Transactions.DailySummaries
import BirrTrack.OcrService.Api
import BirrTrack.Processing.BlankImages
import BirrTrack.Transactions.Validation
import BirrTrack.Foundation.Language
import BirrTrack.Processing.LabelledIds
import BirrTrack.Processing.TransactionIds
import BirrTrack.Processing.Numerals
import BirrTrack.Processing.WholeAmounts
import BirrTrack.Processing.Contract
import BirrTrack.Python.Text
import BirrTrack.Python.Values
import BirrTrack.Python.Json
import BirrTrack.OcrService.Extraction
import BirrTrack.Foundation.Captures
import BirrTrack.Processing.ClockTimes
import BirrTrack.OcrService.AmountTexts
import BirrTrack.OcrService.BalancedBraces
import BirrTrack.OcrService.EmbeddedObjects
import BirrTrack.OcrService.OcrResults
import BirrTrack.Application.System
import BirrTrack.Application.Steps
import BirrTrack.Application.Histories
import BirrTrack.Application.Contents
import BirrTrack.Application.Provenance
import BirrTrack.Application.Announcements
import BirrTrack.Application.Completion
import BirrTrack.Application.Progress
import BirrTrack.Application.Attempts
import BirrTrack.Application.AuditTrails
import BirrTrack.Application.Originals
import BirrTrack.Foundation.DoubleChecked
import BirrTrack.OcrService.EngineStartup
import BirrTrack.OcrService.Singletons
import BirrTrack.OcrService.Preprocessing
import BirrTrack.OcrService.Uploads
import BirrTrack.Python.Formats
import BirrTrack.OcrService.TimestampFormats
import BirrTrack.OcrService.Renormalization
import BirrTrack.Js.Hundredths
import BirrTrack.Transactions.Restoration
import BirrTrack.Transactions.Revenue
import BirrTrack.Application.Restoration
import BirrTrack.Application.Receipts
import BirrTrack.Application.Endpoints
import BirrTrack.Application.Answers
