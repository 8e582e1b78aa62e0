import VendorScreen.Base64
import VendorScreen.Batch
import VendorScreen.ByteSource
import VendorScreen.Bytes
import VendorScreen.Catalogue
import VendorScreen.CommandLine.Grammar
import VendorScreen.CommandLine.Invocation
import VendorScreen.CommandLine.Report
import VendorScreen.CommandLine.Run
import VendorScreen.CommandLine.Settings
import VendorScreen.Crc32
import VendorScreen.Deflate.BitCursor
import VendorScreen.Deflate.Inflate
import VendorScreen.Deflate.PrefixCode
import VendorScreen.Dex.Container
import VendorScreen.Dex.Fault
import VendorScreen.Dex.Leb128
import VendorScreen.Dex.ModifiedUtf8
import VendorScreen.Files.ArchiveSearch
import VendorScreen.Files.Glob
import VendorScreen.Files.IgnoreRules
import VendorScreen.Files.Path
import VendorScreen.Files.Snapshot
import VendorScreen.Files.Tree
import VendorScreen.Host
import VendorScreen.Inventory
import VendorScreen.Json.Basic
import VendorScreen.Json.Fields
import VendorScreen.Json.Numeral
import VendorScreen.Json.Reader
import VendorScreen.Json.Writer
import VendorScreen.Main
import VendorScreen.Manifest
import VendorScreen.Outcome
import VendorScreen.PackageRecord
import VendorScreen.Proofs.Batch.Interleaving
import VendorScreen.Proofs.ByteRuns
import VendorScreen.Proofs.Deflate.Bits
import VendorScreen.Proofs.Deflate.Blocks
import VendorScreen.Proofs.Deflate.CanonicalCode
import VendorScreen.Proofs.Deflate.CodeLengths
import VendorScreen.Proofs.Deflate.Growth
import VendorScreen.Proofs.Deflate.Tokens
import VendorScreen.Proofs.Dex.Bounds
import VendorScreen.Proofs.Dex.Cuts
import VendorScreen.Proofs.Dex.Header
import VendorScreen.Proofs.Dex.Image
import VendorScreen.Proofs.Dex.Leb128
import VendorScreen.Proofs.Dex.ModifiedUtf8
import VendorScreen.Proofs.Dex.Names
import VendorScreen.Proofs.Dex.Overflow
import VendorScreen.Proofs.Earliest
import VendorScreen.Proofs.Query.Abandonment
import VendorScreen.Proofs.Query.Calls
import VendorScreen.Proofs.Query.Cancellation
import VendorScreen.Proofs.Query.Decision
import VendorScreen.Proofs.Query.DeclaredSize
import VendorScreen.Proofs.Query.Timed
import VendorScreen.Proofs.Query.Work
import VendorScreen.Proofs.Steps
import VendorScreen.Proofs.Text.Utf16
import VendorScreen.Proofs.Text.Utf8
import VendorScreen.Proofs.Crc32
import VendorScreen.Proofs.Zip.Bodies
import VendorScreen.Proofs.Zip.Entries
import VendorScreen.Proofs.Zip.Inflated
import VendorScreen.Query
import VendorScreen.Registry
import VendorScreen.Session
import VendorScreen.Text.Blank
import VendorScreen.Text.CodePage437
import VendorScreen.Text.Decimal
import VendorScreen.Text.GraphemeExtend
import VendorScreen.Text.Quoted
import VendorScreen.Text.Unprintable
import VendorScreen.Text.Utf16
import VendorScreen.Text.Utf8
import VendorScreen.Verdict
import VendorScreen.Watchlist
import VendorScreen.Zip.Archive
import VendorScreen.Zip.Entry
import VendorScreen.Zip.Fault
import VendorScreen.Zip.Scanner
import VendorScreen.Proofs.Zip.Directory
import VendorScreen.Proofs.Zip.RoundTrip
import VendorScreen.Proofs.Zip.Removal
import VendorScreen.Proofs.Query.Assets
import VendorScreen.Proofs.Base64
import VendorScreen.Proofs.Inventory.Replies
import VendorScreen.Proofs.Query.Listing
import VendorScreen.Proofs.Session.History
import VendorScreen.Proofs.Session.Icons
import VendorScreen.Proofs.Session.Live
import VendorScreen.Proofs.Inventory.Callers
import VendorScreen.Proofs.Dex.Streams
import VendorScreen.Proofs.Dex.StringGrammar
import VendorScreen.Proofs.Query.Simulation
import VendorScreen.Proofs.Query.Marker
import VendorScreen.Proofs.Query.SizeLimit
import VendorScreen.Proofs.Query.EntryOrder
import VendorScreen.Proofs.Zip.Scanning
import VendorScreen.Proofs.Query.WiderLists
import VendorScreen.Proofs.Query.Failures
import VendorScreen.Proofs.ByteSource
import VendorScreen.Proofs.Catalogue
import VendorScreen.Proofs.Catalogue.Register
import VendorScreen.Proofs.Catalogue.Directory
import VendorScreen.Proofs.Files.Tree
import VendorScreen.Proofs.Json.Literals
import VendorScreen.Proofs.Files.ArchiveSearch
import VendorScreen.Proofs.CommandLine.AcceptedLines
import VendorScreen.Proofs.CommandLine.PrintedReports
import VendorScreen.Proofs.CommandLine.Agreement
import VendorScreen.Proofs.Query.Laziness
import VendorScreen.Proofs.Watchlist.Expression
import VendorScreen.Proofs.Json.RoundTrip
import VendorScreen.Proofs.PackageRecord
import VendorScreen.Proofs.Session.Texts
import VendorScreen.Proofs.Text.Controls
import VendorScreen.Proofs.CommandLine.Lines
import VendorScreen.Proofs.CommandLine.TextReports
import VendorScreen.Proofs.CommandLine.ClassListing
import VendorScreen.Proofs.Watchlist.ReadBack
import VendorScreen.Proofs.Watchlist.Segments
