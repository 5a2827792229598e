import Stylesheet.Main
import Stylesheet.Proofs.Forest
import Stylesheet.Proofs.Blanks
import Stylesheet.Proofs.Drafts
import Stylesheet.Proofs.Resolve
import Stylesheet.Proofs.ScanLayers
import Stylesheet.Proofs.Reading
import Stylesheet.Proofs.Spelling
import Stylesheet.Proofs.Settled
import Stylesheet.Proofs.Branches
import Stylesheet.Proofs.Compaction
import Stylesheet.Proofs.Blocks
import Stylesheet.Proofs.Nested
import Stylesheet.Proofs.Values
import Stylesheet.Proofs.Reprint
import Stylesheet.Proofs.Reread
import Stylesheet.Proofs.Fixpoint
import Stylesheet.Proofs.CanonicalPaths
import Stylesheet.Proofs.Sessions
import Stylesheet.Proofs.ImportChains
import Stylesheet.Proofs.ImportCycles
import Stylesheet.Proofs.Offences
import Stylesheet.Proofs.Advances
import Stylesheet.Proofs.Descent
import Stylesheet.Proofs.BlockStructure
import Stylesheet.Proofs.Splicing
import Stylesheet.Proofs.Locations
import Stylesheet.Proofs.Loads
import Stylesheet.Proofs.CacheHistories
import Stylesheet.Proofs.Rendering
import Stylesheet.Proofs.Turns
import Stylesheet.Proofs.Provenance
import Stylesheet.Proofs.Outlines
import Stylesheet.Proofs.Composition
import Stylesheet.Proofs.Cuts
import Stylesheet.Proofs.FlatOutput
import Stylesheet.Proofs.Indentation
import Stylesheet.Proofs.Linked
import Stylesheet.Proofs.Placeholders
import Stylesheet.Proofs.Abreast
import Stylesheet.Proofs.Seams
import Stylesheet.Proofs.Remarks
import Stylesheet.Proofs.Bodies
import Stylesheet.Proofs.Lookahead
import Stylesheet.Proofs.Products
import Stylesheet.Proofs.Enclosures
import Stylesheet.Proofs.MixinImages
import Stylesheet.Proofs.Mixins
import Stylesheet.Proofs.Cells
import Stylesheet.Proofs.Items
import Stylesheet.Proofs.Compacted
import Stylesheet.Proofs.Digests
import Stylesheet.Proofs.Legible
import Stylesheet.Proofs.Minified
import Stylesheet.Proofs.Declared
import Stylesheet.Proofs.Passes
import Stylesheet.Proofs.Written
import Stylesheet.Proofs.RuleBodies
import Stylesheet.Proofs.Strings
import Stylesheet.Proofs.Substitution
import Stylesheet.Proofs.Respaced
import Stylesheet.Proofs.CallSyntax
import Stylesheet.Proofs.Inlining
import Stylesheet.Proofs.Partition
import Stylesheet.Proofs.Parentheses
import Stylesheet.Proofs.PrintedComments
import Stylesheet.Proofs.VisibleLines
import Stylesheet.Proofs.Padding
