import Std.Data.ExtTreeMap
import Std.Data.ExtTreeSet
import RowStore.Bytes

/-!
# Identifiers

Tables, pages, records, and transactions are named by numbers. A page is named by its table and
its number within the table, so two pages of different tables never share a name. Each kind of
identifier has a linear order, and the maps of this library are ordered by it: pages are listed
by table and then by number.
-/

namespace RowStore

open Std

/-- The name of a table. -/
structure TableId where
  number : Nat
deriving DecidableEq, Repr

/-- The name of a page: its table, and its number within the table from zero. -/
structure PageId where
  table : TableId
  number : Nat
deriving DecidableEq, Repr

/-- The place of a record: a page and a slot within it. -/
structure RecordId where
  page : PageId
  slot : Nat
deriving DecidableEq, Repr

/-- The name of a transaction. -/
structure TxnId where
  number : Nat
deriving DecidableEq, Repr

namespace TableId

instance : Ord TableId := ⟨compareOn TableId.number⟩

instance : TransOrd TableId := inferInstanceAs (TransCmp (compareOn TableId.number))

instance : LawfulEqOrd TableId where
  eq_of_compare {a b} h := by
    have hnumber : a.number = b.number := Std.compare_eq_iff_eq.mp h
    cases a; cases b; simp_all

instance : ToString TableId := ⟨fun table => "TableId(" ++ toString table.number ++ ")"⟩

end TableId

namespace PageId

instance : Ord PageId := ⟨compareLex (compareOn PageId.table) (compareOn PageId.number)⟩

instance : TransOrd PageId :=
  inferInstanceAs (TransCmp (compareLex (compareOn PageId.table) (compareOn PageId.number)))

instance : LawfulEqOrd PageId where
  eq_of_compare {a b} h := by
    have hlex : compareLex (compareOn PageId.table) (compareOn PageId.number) a b = .eq := h
    obtain ⟨htable, hnumber⟩ := compareLex_eq_eq.mp hlex
    have htable : a.table = b.table := Std.compare_eq_iff_eq.mp htable
    have hnumber : a.number = b.number := Std.compare_eq_iff_eq.mp hnumber
    cases a; cases b; simp_all

instance : ToString PageId :=
  ⟨fun page => "PageId(" ++ toString page.table.number ++ ":" ++ toString page.number ++ ")"⟩

/-- The eight bytes that name a page: the table and then the number, each as a 32-bit number. -/
def toBytes (page : PageId) : Bytes :=
  Bytes.ofWord32 page.table.number ++ Bytes.ofWord32 page.number

/-- The page that eight bytes name. -/
def ofBytes? : Bytes → Option PageId
  | [t₃, t₂, t₁, t₀, n₃, n₂, n₁, n₀] =>
      some ⟨⟨Bytes.toWord32 t₃ t₂ t₁ t₀⟩, Bytes.toWord32 n₃ n₂ n₁ n₀⟩
  | _ => none

end PageId

namespace RecordId

instance : ToString RecordId :=
  ⟨fun record => toString record.page ++ "#" ++ toString record.slot⟩

end RecordId

namespace TxnId

instance : Ord TxnId := ⟨compareOn TxnId.number⟩

instance : TransOrd TxnId := inferInstanceAs (TransCmp (compareOn TxnId.number))

instance : LawfulEqOrd TxnId where
  eq_of_compare {a b} h := by
    have hnumber : a.number = b.number := Std.compare_eq_iff_eq.mp h
    cases a; cases b; simp_all

instance : ToString TxnId := ⟨fun txn => "Txn(" ++ toString txn.number ++ ")"⟩

end TxnId

/-- A finite map from tables, listed in table order. -/
abbrev TableMap (α : Type) := ExtTreeMap TableId α

/-- A finite map from pages, listed in page order. -/
abbrev PageMap (α : Type) := ExtTreeMap PageId α

/-- A finite map from transactions, listed in order of their numbers. -/
abbrev TxnMap (α : Type) := ExtTreeMap TxnId α

/-- A finite set of transactions. -/
abbrev TxnSet := ExtTreeSet TxnId

end RowStore
