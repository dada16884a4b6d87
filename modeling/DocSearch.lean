import DocSearch.Action
import DocSearch.Address.Host
import DocSearch.Address.Ip
import DocSearch.Address.Listen
import DocSearch.Address.Url
import DocSearch.Cancel
import DocSearch.Cancel.Spread
import DocSearch.Chunk
import DocSearch.Command.Ending
import DocSearch.Command.Help
import DocSearch.Command.Parse
import DocSearch.Command.Program
import DocSearch.Command.Run
import DocSearch.Command.Switch
import DocSearch.Daemon.Ask
import DocSearch.Daemon.Client
import DocSearch.Daemon.Reply
import DocSearch.Daemon.Wait
import DocSearch.Doc.Attachment
import DocSearch.Doc.Comment
import DocSearch.Doc.Extract
import DocSearch.Doc.Walk
import DocSearch.Embedding.Nearness
import DocSearch.Embedding.Vector
import DocSearch.Fields
import DocSearch.Files.Disk
import DocSearch.Files.Path
import DocSearch.Files.Tree
import DocSearch.Go.Form
import DocSearch.Go.Grammar
import DocSearch.Go.Lexeme
import DocSearch.Go.Outline
import DocSearch.Index.Crew
import DocSearch.Index.Run
import DocSearch.Index.Shift
import DocSearch.Index.Source
import DocSearch.Index.Stats
import DocSearch.Json.Bytes
import DocSearch.Json.Printer
import DocSearch.Json.Reader
import DocSearch.Log
import DocSearch.Main
import DocSearch.Number.Binary64
import DocSearch.Number.Numeral
import DocSearch.Number.Shortest
import DocSearch.Prompt.Context
import DocSearch.Prompt.Quote
import DocSearch.Proofs.Action
import DocSearch.Proofs.Address.Formatted
import DocSearch.Proofs.Address.Port
import DocSearch.Proofs.Cancel
import DocSearch.Proofs.Cancel.Agreement
import DocSearch.Proofs.Cancel.History
import DocSearch.Proofs.Cancel.Spread
import DocSearch.Proofs.Daemon.Agreement
import DocSearch.Proofs.Daemon.Delivery
import DocSearch.Proofs.Daemon.Escape
import DocSearch.Proofs.Daemon.Exits
import DocSearch.Proofs.Doc.Blocks
import DocSearch.Proofs.Doc.Course
import DocSearch.Proofs.Doc.Damage
import DocSearch.Proofs.Doc.Directive
import DocSearch.Proofs.Doc.Filename
import DocSearch.Proofs.Doc.Folder
import DocSearch.Proofs.Doc.Identity
import DocSearch.Proofs.Doc.Items
import DocSearch.Proofs.Doc.Layout
import DocSearch.Proofs.Doc.Lead
import DocSearch.Proofs.Doc.Names
import DocSearch.Proofs.Doc.Owners
import DocSearch.Proofs.Doc.Paragraphs
import DocSearch.Proofs.Doc.Preorder
import DocSearch.Proofs.Doc.Recorded
import DocSearch.Proofs.Doc.Spelling
import DocSearch.Proofs.Doc.Stream
import DocSearch.Proofs.Entries
import DocSearch.Proofs.Files.Damage
import DocSearch.Proofs.Files.Follow
import DocSearch.Proofs.Files.Paths
import DocSearch.Proofs.Go.Ends
import DocSearch.Proofs.Go.Reading
import DocSearch.Proofs.Index.Apart
import DocSearch.Proofs.Index.Drift
import DocSearch.Proofs.Index.Ending
import DocSearch.Proofs.Index.Failure
import DocSearch.Proofs.Index.Filling
import DocSearch.Proofs.Index.Frame
import DocSearch.Proofs.Index.Halt
import DocSearch.Proofs.Index.Ledger
import DocSearch.Proofs.Index.Likeness
import DocSearch.Proofs.Index.Mirror
import DocSearch.Proofs.Index.Moves
import DocSearch.Proofs.Index.Progress
import DocSearch.Proofs.Index.Race
import DocSearch.Proofs.Index.Requests
import DocSearch.Proofs.Index.Rerun
import DocSearch.Proofs.Index.Runs
import DocSearch.Proofs.Index.Shift
import DocSearch.Proofs.Index.Skipped
import DocSearch.Proofs.Index.Supply
import DocSearch.Proofs.Index.Tally
import DocSearch.Proofs.Index.Turns
import DocSearch.Proofs.Json.Reading
import DocSearch.Proofs.Keyed
import DocSearch.Proofs.Number.Numeral
import DocSearch.Proofs.Prompt.Context
import DocSearch.Proofs.Prompt.Quote
import DocSearch.Proofs.Search.Handling
import DocSearch.Proofs.Search.Lending
import DocSearch.Proofs.Search.Lossless
import DocSearch.Proofs.Search.Retrieval
import DocSearch.Proofs.Settings.Expand
import DocSearch.Proofs.Settings.Layer
import DocSearch.Proofs.Settings.Load
import DocSearch.Proofs.Store.Alike
import DocSearch.Proofs.Store.Backing
import DocSearch.Proofs.Store.Below
import DocSearch.Proofs.Store.Indexed
import DocSearch.Proofs.Store.Keys
import DocSearch.Proofs.Store.Like
import DocSearch.Proofs.Store.Ranking
import DocSearch.Proofs.Store.Writing
import DocSearch.Proofs.Store.Written
import DocSearch.Proofs.Text.Lines
import DocSearch.Proofs.Text.Trim
import DocSearch.Proofs.Text.Utf8
import DocSearch.Proofs.Yaml.Keys
import DocSearch.RunError
import DocSearch.Search.Handling
import DocSearch.Search.Results
import DocSearch.Search.Retrieve
import DocSearch.Settings.Expand
import DocSearch.Settings.Layer
import DocSearch.Settings.Load
import DocSearch.Settings.Section
import DocSearch.Store.Access
import DocSearch.Store.Cursor
import DocSearch.Store.Database
import DocSearch.Store.Error
import DocSearch.Store.Pattern
import DocSearch.Store.Statement
import DocSearch.Store.Tables
import DocSearch.Text.Base64
import DocSearch.Text.Char
import DocSearch.Text.Charset
import DocSearch.Text.Class.Digit
import DocSearch.Text.Class.Identifier
import DocSearch.Text.Class.Unprintable
import DocSearch.Text.Class.Upper
import DocSearch.Text.CodePoint
import DocSearch.Text.Lines
import DocSearch.Text.Quoted
import DocSearch.Text.Ranges
import DocSearch.Text.Similar
import DocSearch.Text.Trim
import DocSearch.Text.Utf8
import DocSearch.Text.Wide
import DocSearch.Text.Wrap
import DocSearch.Tool.Call
import DocSearch.Tool.Input
import DocSearch.Tool.Schema
import DocSearch.Tool.Service
import DocSearch.Trial.Pace
import DocSearch.Trial.Words
import DocSearch.Trial.World
import DocSearch.Value
import DocSearch.Value.Integer
import DocSearch.Yaml.Cursor
import DocSearch.Yaml.Document
import DocSearch.Yaml.Error
import DocSearch.Yaml.Lexer
import DocSearch.Yaml.Meaning
import DocSearch.Yaml.Node
import DocSearch.Yaml.Scalar
import DocSearch.Yaml.Tag
import DocSearch.Yaml.Token
