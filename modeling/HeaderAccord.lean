import HeaderAccord.Journal.Schema
import HeaderAccord.Main
import HeaderAccord.Proofs.Binding.Declaration
import HeaderAccord.Proofs.Binding.Front
import HeaderAccord.Proofs.Binding.Sources
import HeaderAccord.Proofs.CommentLexer
import HeaderAccord.Proofs.Config
import HeaderAccord.Proofs.LineBreak
import HeaderAccord.Proofs.Run.Composition
import HeaderAccord.Proofs.Run.Attribution
import HeaderAccord.Proofs.Run.Fatal
import HeaderAccord.Proofs.Run.Watcher
import HeaderAccord.Proofs.Header.Concatenation
import HeaderAccord.Proofs.Header.Layout
import HeaderAccord.Proofs.Header.Prototype
import HeaderAccord.Proofs.Override.Bare
import HeaderAccord.Proofs.Override.Verdict
import HeaderAccord.Proofs.Override.Layout
import HeaderAccord.Proofs.Json.Pretty
import HeaderAccord.Proofs.Header.Document
import HeaderAccord.Proofs.Header.Capture
import HeaderAccord.Proofs.Header.Declarator
import HeaderAccord.Proofs.Json.ValueReading
import HeaderAccord.Proofs.Journal.Schema
import HeaderAccord.Proofs.Binding.Blanks
import HeaderAccord.Proofs.Binding.Independence
import HeaderAccord.Proofs.Run.Context
import HeaderAccord.Proofs.Json.Ordering
import HeaderAccord.Proofs.Journal.Canonical
import HeaderAccord.Proofs.Config.File
import HeaderAccord.Proofs.Config.Rebase
import HeaderAccord.Proofs.Journal.Validation
import HeaderAccord.Proofs.Bracket.Split
import HeaderAccord.Proofs.Offset.Safety
import HeaderAccord.Proofs.NameMatching
