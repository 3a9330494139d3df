import KeywordTable.Plain.Literal
import KeywordTable.Plain.Reading
import KeywordTable.Reader.Moves
import KeywordTable.Record
import KeywordTable.Script
import KeywordTable.Table
import KeywordTable.Proofs.Lexeme
import KeywordTable.Proofs.Recovery
import KeywordTable.Proofs.Recovery.Condition
import KeywordTable.Proofs.Accounting
import KeywordTable.Proofs.Ledger
import KeywordTable.Proofs.Closed
import KeywordTable.Proofs.Recovery.Update
import KeywordTable.Proofs.Paging
import KeywordTable.Proofs.Paging.Delivery
import KeywordTable.Proofs.Paging.Runs
import KeywordTable.Proofs.Paging.Chain
import KeywordTable.Proofs.Paging.Counting
import KeywordTable.Proofs.Paging.Requests
import KeywordTable.Proofs.Paging.Resumption
import KeywordTable.Proofs.Paging.Budget
import KeywordTable.Proofs.Paging.Settings
import KeywordTable.Proofs.Batches.Writing
import KeywordTable.Proofs.Batches.Reading
import KeywordTable.Proofs.Compiling
import KeywordTable.Proofs.FailFast
import KeywordTable.Proofs.Keywords
import KeywordTable.Proofs.Conditions
import KeywordTable.Proofs.Keywords.BareKeywords
import KeywordTable.Proofs.Queries.KeyAttributes
import KeywordTable.Proofs.Updates
import KeywordTable.Proofs.Numerals
import KeywordTable.Proofs.Nulls
import KeywordTable.Proofs.Keys
import KeywordTable.Proofs.Codec
import KeywordTable.Proofs.Batches.Wording
import KeywordTable.Proofs.Batches.Postponing
import KeywordTable.Proofs.Validating
