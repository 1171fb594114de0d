import GoInventory.Main
import GoInventory.SymbolTable
import GoInventory.Proofs.Text.Encoding
import GoInventory.Proofs.Text.Slice
import GoInventory.Proofs.Token.Lexemes
import GoInventory.Proofs.Token.Semicolons
import GoInventory.Proofs.Token.Order
import GoInventory.Proofs.Syntax.Brackets
import GoInventory.Proofs.Syntax.Grammar
import GoInventory.Proofs.Syntax.Grouping
import GoInventory.Proofs.Syntax.Offsets
import GoInventory.Proofs.Syntax.Nesting
import GoInventory.Proofs.Syntax.Shape
import GoInventory.Proofs.Syntax.Reads
import GoInventory.Proofs.Syntax.Entries
import GoInventory.Proofs.Syntax.Completeness
import GoInventory.Proofs.Syntax.WellFormed
import GoInventory.Proofs.Syntax.Takes
import GoInventory.Proofs.Syntax.Soundness
import GoInventory.Proofs.Syntax.FileGrammar
import GoInventory.Proofs.Syntax.FileSoundness
import GoInventory.Proofs.Syntax.Accounting
import GoInventory.Proofs.Token.Cutting
import GoInventory.Proofs.Syntax.Nodes
import GoInventory.Proofs.TypeText.Outline
import GoInventory.Proofs.TypeText.Spelling
import GoInventory.Proofs.TypeText.RoundTrip
import GoInventory.Proofs.Token.Separators
import GoInventory.Proofs.Token.Tiling
import GoInventory.Proofs.Token.Numbers
import GoInventory.Proofs.Token.Respelling
import GoInventory.Proofs.Token.LineBreak
import GoInventory.Proofs.Token.Matching
import GoInventory.Proofs.Syntax.Moving
import GoInventory.Proofs.Syntax.TypeMoving
import GoInventory.Proofs.Syntax.FileMoving
import GoInventory.Proofs.Syntax.Joining
import GoInventory.Proofs.Syntax.Bare
import GoInventory.Proofs.Syntax.TypeBare
import GoInventory.Proofs.Syntax.FileBare
import GoInventory.Proofs.Declaration.Offsets
import GoInventory.Proofs.Declaration.Joining
import GoInventory.Proofs.Declaration.Layout
import GoInventory.Proofs.Declaration.TypeParameters
import GoInventory.Proofs.Token.Dialogue
import GoInventory.Proofs.Syntax.Diagnostics
import GoInventory.Proofs.Syntax.SpanTree
import GoInventory.Proofs.Syntax.SpanNesting
import GoInventory.Proofs.Listing.Scripts
import GoInventory.Proofs.Listing.Truncation
import GoInventory.Proofs.Listing.FailFast
import GoInventory.Proofs.Declaration.Headings
import GoInventory.Proofs.Tape.Basic
import GoInventory.Proofs.Tape.Follows
import GoInventory.Proofs.Tape.TypeFollows
import GoInventory.Proofs.Tape.FileFollows
import GoInventory.Proofs.TypeText.Unsupported
import GoInventory.Proofs.Listing.Records
import GoInventory.Proofs.Listing.NulTerminated
import GoInventory.Proofs.Source.Positions
import GoInventory.Proofs.Listing.Columns
import GoInventory.Proofs.Arena.Symbols
import GoInventory.Proofs.Arena.Basic
import GoInventory.Proofs.Arena.Store
import GoInventory.Proofs.Arena.Builder
import GoInventory.Proofs.Arena.Building
import GoInventory.Proofs.Arena.Forest
import GoInventory.Proofs.Arena.Moves
import GoInventory.Proofs.Arena.Size
import GoInventory.Proofs.Arena.Holds
import GoInventory.Proofs.Arena.Printing
import GoInventory.Proofs.Arena.WellFounded
import GoInventory.Proofs.Tag.ByteDecoder
import GoInventory.Proofs.Tag.Quoted
import GoInventory.Proofs.Tag.Entries
import GoInventory.Proofs.Tag.Offsets
import GoInventory.Proofs.Tag.Literals
import GoInventory.Proofs.Syntax.BracketWords
import GoInventory.Proofs.Syntax.Regions
import GoInventory.Proofs.Syntax.Receivers
import GoInventory.Proofs.Syntax.Variadics
