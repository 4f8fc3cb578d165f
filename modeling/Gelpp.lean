import Gelpp.Dwarf.Progress
import Gelpp.Dwarf.Attributes
import Gelpp.Dwarf.Rows
import Gelpp.Dwarf.Divisors
import Gelpp.Dwarf.Lookup
import Gelpp.Dwarf.TableDigest
import Gelpp.Elf.Content
import Gelpp.Elf.StackLayout
import Gelpp.Elf.Remember
import Gelpp.Elf.NotesRead
import Gelpp.Elf.DynsRange
import Gelpp.Elf.Order
import Gelpp.Elf.Classes
import Gelpp.Elf.Builders
import Gelpp.Pecoff.Content
import Gelpp.Image
import Gelpp.RoundTrip
import Gelpp.CursorRun
import Gelpp.Dwarf.Links
import Gelpp.Dwarf.Distinct
import Gelpp.Dwarf.Tables4
import Gelpp.Dwarf.Refused
import Gelpp.Dwarf.SetAddress
import Gelpp.Dwarf.Defined
import Gelpp.Dwarf.Numbering
import Gelpp.Dwarf.Framing
import Gelpp.Dwarf.Algebra
import Gelpp.Dwarf.LebReads
import Gelpp.Bin.LineCommand
import Gelpp.Elf.Strings
import Gelpp.Elf.Fix
import Gelpp.Elf.LinkTexts
import Gelpp.Elf.Contains
import Gelpp.Elf.Units
import Gelpp.Elf.SymbolTables
import Gelpp.Elf.Placement
import Gelpp.Elf.WeakSymbols
import Gelpp.Pecoff.Encoding
import Gelpp.Pecoff.Entry
import Gelpp.Pecoff.Retry
import Gelpp.Coffi.Symbols
import Gelpp.Elf.Lines
import Gelpp.Bin.ImageCommand
import Gelpp.Bin.Listings
import Gelpp.Coffi.Requests
import Gelpp.Bin.DynCommand
import Gelpp.Bin.SymCommand
import Gelpp.Bin.SectCommand
import Gelpp.Dwarf.LineTable
