import Concordance.Binary64
import Concordance.Cache
import Concordance.Checksum
import Concordance.CommandLine
import Concordance.CommandLine.Arguments
import Concordance.CommandLine.Files
import Concordance.CommandLine.Location
import Concordance.CommandLine.Path
import Concordance.Config
import Concordance.Config.File
import Concordance.Conjunction
import Concordance.Decimal
import Concordance.DocLengths
import Concordance.Document
import Concordance.Engine
import Concordance.Engine.Storage
import Concordance.Error
import Concordance.Fault
import Concordance.Hit
import Concordance.InvertedIndex
import Concordance.Json.Lexeme
import Concordance.Json.Number
import Concordance.Json.Value
import Concordance.Main
import Concordance.Phrase
import Concordance.PopStream
import Concordance.Posting
import Concordance.Posting.Reader
import Concordance.PostingList
import Concordance.PostingList.Codec
import Concordance.PostingList.Cursor
import Concordance.Proofs.Cache
import Concordance.Proofs.Collection
import Concordance.Proofs.Conjunction
import Concordance.Proofs.Cursor
import Concordance.Proofs.Document
import Concordance.Proofs.Engine
import Concordance.Proofs.Hit
import Concordance.Proofs.InvertedIndex
import Concordance.Proofs.Phrase
import Concordance.Proofs.PopStream
import Concordance.Proofs.Posting
import Concordance.Proofs.PostingList
import Concordance.Proofs.Ranking
import Concordance.Proofs.Result
import Concordance.Proofs.Retrieval
import Concordance.Proofs.Sequences
import Concordance.Proofs.Token
import Concordance.Proofs.Varint
import Concordance.Ranking
import Concordance.Retrieval
import Concordance.Similarity
import Concordance.SkipIndex
import Concordance.Snapshot
import Concordance.Snapshot.Layout
import Concordance.Text.Alphanumeric
import Concordance.Text.Casing
import Concordance.Text.CodeSet
import Concordance.Text.Quoted
import Concordance.Token
import Concordance.Varint
import Concordance.Varint.Buffer
import Concordance.Varint.Reader
import Concordance.Word
import Concordance.Proofs.Best
import Concordance.Proofs.PhraseTable
import Concordance.Proofs.RoundTrip
import Concordance.Proofs.Selection
import Concordance.Proofs.Addition
import Concordance.Proofs.Failure
import Concordance.Proofs.Layout
import Concordance.Proofs.Loading
import Concordance.Proofs.Requests
import Concordance.Proofs.Snapshot
import Concordance.Proofs.Storage
import Concordance.Proofs.Table
import Concordance.Proofs.Checksum
import Concordance.Proofs.Tampering
import Concordance.Proofs.Calls
import Concordance.Proofs.Records
import Concordance.Proofs.Frequency
import Concordance.Proofs.Highlighting
import Concordance.Proofs.Agreement
import Concordance.Proofs.Tuning
import Concordance.Proofs.Offers
import Concordance.Proofs.Highlights
import Concordance.Proofs.TwoTerms
import Concordance.Proofs.MissingLength
import Concordance.Proofs.Locality
import Concordance.Proofs.Tokenization
import Concordance.Proofs.Grouping
import Concordance.Proofs.Occurrences
import Concordance.Proofs.Recency
import Concordance.Proofs.Counters
import Concordance.Proofs.Lexeme
import Concordance.Proofs.Settings
import Concordance.Proofs.Bytes
import Concordance.Proofs.Numeral
import Concordance.Proofs.Buffer
