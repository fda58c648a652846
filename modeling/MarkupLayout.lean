import MarkupLayout.Document.Session
import MarkupLayout.Main
import MarkupLayout.Proofs.CanonicalLayout
import MarkupLayout.Proofs.DefinitionJumps
import MarkupLayout.Proofs.WellNested
import MarkupLayout.Proofs.RegionRun
import MarkupLayout.Proofs.StableLayout
import MarkupLayout.Proofs.IndentedScan
import MarkupLayout.Proofs.TokenOffsets
import MarkupLayout.Proofs.TokensAtLines
import MarkupLayout.Proofs.TokensKept
import MarkupLayout.Proofs.Enclosures
import MarkupLayout.Proofs.LeadingBlanks
import MarkupLayout.Proofs.ColumnFromAbove
import MarkupLayout.Proofs.PlainRows
import MarkupLayout.Proofs.BlockLayout
import MarkupLayout.Proofs.SigilTokens
import MarkupLayout.Proofs.KeywordPlaces
import MarkupLayout.Proofs.SingleQuotes
import MarkupLayout.Proofs.CheckedEdits
import MarkupLayout.Proofs.CheckedSessions
import MarkupLayout.Proofs.CursorKept
import MarkupLayout.Proofs.IndentInLiterals
import MarkupLayout.Proofs.Landmarks
import MarkupLayout.Proofs.Placement
import MarkupLayout.Proofs.PlacedColumn
import MarkupLayout.Proofs.LayoutInStyles
import MarkupLayout.Proofs.IndentLevels
import MarkupLayout.Proofs.BalancedMarks
import MarkupLayout.Proofs.NearestAnchor
import MarkupLayout.Proofs.CutSearch
import MarkupLayout.Proofs.IndentFrame
import MarkupLayout.Proofs.Continuation
import MarkupLayout.Proofs.ExcursionLine
import MarkupLayout.Proofs.FaithfulDumps
import MarkupLayout.Proofs.LongestLexeme
import MarkupLayout.Proofs.ScannerProgress
import MarkupLayout.Proofs.LineLookup
