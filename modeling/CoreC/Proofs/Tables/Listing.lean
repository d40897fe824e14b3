import Mathlib.Data.List.Nodup
import CoreC.Proofs.Names
import CoreC.Proofs.Tables.Building

/-!
# Listing the tables

The entries of a table are listed in the order of their names (`Tables.Lists`): each declaration once and nothing else, in
increasing order. There is one such list. Whoever takes the declarations in any order and sorts them, by the bytes of their
names or by their code points, gets the list of the table.
-/

namespace CoreC

namespace Tables

variable {kind : NameKind} {δ ν : Type} {name : δ → Name kind} {entry : δ → ν}

/-- The list of some declarations in the order of their names. -/
structure Lists (name : δ → Name kind) (entry : δ → ν) (decls : List δ) (listing : List (Name kind × ν)) : Prop where
  /-- The entries are those of the declarations, as often as they are declared. -/
  perm : listing.Perm (decls.map fun d => (name d, entry d))
  /-- No name is listed twice. -/
  once : (listing.map Prod.fst).Nodup
  /-- The bytes of the names increase. -/
  increasing : listing.Pairwise fun x y => x.1.bytes < y.1.bytes
  /-- The declarations sorted by the bytes of their names are this list. -/
  of_bytes : ∀ sorted : List (Name kind × ν), sorted.Perm (decls.map fun d => (name d, entry d)) →
    sorted.Pairwise (fun x y => ¬y.1.bytes < x.1.bytes) → sorted = listing
  /-- The declarations sorted by the code points of their names are this list. -/
  of_codePoints : ∀ sorted : List (Name kind × ν), sorted.Perm (decls.map fun d => (name d, entry d)) →
    sorted.Pairwise (fun x y => ¬y.1.codePoints < x.1.codePoints) → sorted = listing

/-- Names that increase are distinct. -/
theorem nodup_map_fst_of_increasing {listing : List (Name kind × ν)}
    (h : listing.Pairwise fun x y => compare x.1 y.1 = .lt) : (listing.map Prod.fst).Nodup := by
  rw [List.nodup_iff_pairwise_ne, List.pairwise_map]
  refine h.imp ?_
  intro x y hlt heq
  rw [heq, Std.ReflOrd.compare_self] at hlt
  cases hlt

/-- Entries that are sorted by what grows with their names are in the order of their names, if no two have one name. -/
theorem eq_of_perm_of_sorted {κ : Type} [LT κ] {key : Name kind → κ}
    (hkey : ∀ {a b : Name kind}, key a < key b ↔ compare a b = .lt) {sorted listing : List (Name kind × ν)}
    (hlisting : listing.Pairwise fun x y => compare x.1 y.1 = .lt) (hperm : sorted.Perm listing)
    (hsorted : sorted.Pairwise fun x y => ¬key y.1 < key x.1) : sorted = listing := by
  have hweak : listing.Pairwise fun x y => ¬key y.1 < key x.1 := by
    refine hlisting.imp ?_
    intro x y hlt hgt
    rw [Std.OrientedCmp.gt_iff_lt.2 (hkey.1 hgt)] at hlt
    cases hlt
  refine hperm.eq_of_pairwise ?_ hsorted hweak
  intro x y hx hy hxy hyx
  have hname : x.1 = y.1 := by
    rw [hkey] at hxy hyx
    apply Std.LawfulEqOrd.eq_of_compare
    cases hcompare : compare x.1 y.1 with
    | lt => exact absurd hcompare hyx
    | eq => rfl
    | gt => exact absurd (Std.OrientedCmp.gt_iff_lt.1 hcompare) hxy
  exact List.inj_on_of_nodup_map (nodup_map_fst_of_increasing hlisting) (hperm.mem_iff.1 hx) hy hname

/-- A table that was filled from nothing with declarations of distinct names has their entries and no others. -/
theorem toList_fill_perm {decls : List δ} (hn : (decls.map name).Nodup) :
    (fill name entry ∅ decls).toList.Perm (decls.map fun d => (name d, entry d)) := by
  have hlisted : (fill name entry ∅ decls).toList.Nodup :=
    List.Nodup.of_map Prod.fst (nodup_map_fst_of_increasing Std.ExtTreeMap.ordered_keys_toList)
  have hdeclared : (decls.map fun d => (name d, entry d)).Nodup := by
    apply List.Nodup.of_map Prod.fst
    rw [List.map_map]
    exact hn
  rw [List.perm_ext_iff_of_nodup hlisted hdeclared]
  rintro ⟨n, v⟩
  rw [Std.ExtTreeMap.mem_toList_iff_getElem?_eq_some, getElem?_fill_empty_iff hn]
  simp only [List.mem_map, Prod.mk.injEq]

/-- A table that was filled from nothing with declarations of distinct names lists them in order. -/
theorem lists_fill {decls : List δ} (hn : (decls.map name).Nodup) :
    Lists name entry decls (fill name entry ∅ decls).toList := by
  have hperm : (fill name entry ∅ decls).toList.Perm _ := toList_fill_perm hn
  have hincreasing := Std.ExtTreeMap.ordered_keys_toList (t := fill name entry ∅ decls)
  refine ⟨hperm, nodup_map_fst_of_increasing hincreasing, ?_, ?_, ?_⟩
  · exact hincreasing.imp Name.bytes_lt_iff.2
  · intro sorted hsorted hbytes
    exact eq_of_perm_of_sorted Name.bytes_lt_iff hincreasing (hsorted.trans hperm.symm) hbytes
  · intro sorted hsorted hcodePoints
    exact eq_of_perm_of_sorted Name.codePoints_lt_iff hincreasing (hsorted.trans hperm.symm) hcodePoints

end Tables

open Tables

/-- The tables are listed exactly. A table that was built lists every declaration once and nothing else, in strictly increasing
order of the bytes of the names. For any two names the order of their bytes is the order of their code points, so that sorting
by either gives the same list. -/
theorem Tables.listing_exact :
    (∀ (decls : List StructDecl) (table : StructTable), (StructTable.build decls).result = .ok table →
      Lists StructDecl.name StructDecl.fields decls table.toList) ∧
    (∀ (funs : List FunDef) (table : FunTable), (FunTable.build funs).result = .ok table →
      Lists FunDef.name (fun f => ⟨f.params.map Decl.ty, f.returnType⟩) funs table.toList) ∧
    ∀ (kind : NameKind) (a b : Name kind), a.bytes < b.bytes ↔ a.codePoints < b.codePoints := by
  refine ⟨?_, ?_, ?_⟩
  · intro decls table htable
    obtain ⟨hn, -, rfl⟩ := (StructTable.build_eq_ok_iff decls table).1 htable
    exact lists_fill hn
  · intro funs table htable
    obtain ⟨hn, -, rfl⟩ := (FunTable.build_eq_ok_iff funs table).1 htable
    exact lists_fill hn
  · intro kind a b
    rw [Name.bytes_lt_iff, Name.codePoints_lt_iff]

namespace ListingAux

/-- Names of no byte and of one to four, in no order. -/
def scatteredNames (kind : NameKind) : List (Name kind) :=
  [⟨"𐀀"⟩, ⟨"\uffee"⟩, ⟨"z"⟩, ⟨"é"⟩, ⟨""⟩]

/-- The same names by code points. -/
def orderedNames (kind : NameKind) : List (Name kind) :=
  [⟨""⟩, ⟨"z"⟩, ⟨"é"⟩, ⟨"\uffee"⟩, ⟨"𐀀"⟩]

/-- Structures of these names, without fields. -/
def scatteredStructs : List StructDecl :=
  (scatteredNames .struct).map fun name => ⟨name, []⟩

/-- Functions of these names, each with a parameter. -/
def scatteredFuns : List FunDef :=
  (scatteredNames .func).map fun name => ⟨.void, name, [⟨.int, ⟨"n"⟩⟩], .returnVoid⟩

end ListingAux

open ListingAux

/-- Five structures, and five functions, are listed by code points, those above the surrogates last, and their bytes
increase. -/
theorem Tables.listing_exact_scattered :
    (∃ table, (StructTable.build scatteredStructs).result = .ok table ∧
      table.toList = (orderedNames .struct).map (fun name => (name, [])) ∧
      table.toList.Pairwise fun x y => x.1.bytes < y.1.bytes) ∧
    ∃ table, (FunTable.build scatteredFuns).result = .ok table ∧
      table.toList = (orderedNames .func).map (fun name => (name, ⟨[.int], .void⟩)) ∧
      table.toList.Pairwise fun x y => x.1.bytes < y.1.bytes := by
  obtain ⟨hstructs, hfuns, -⟩ := Tables.listing_exact
  constructor
  · have hbuild : (StructTable.build scatteredStructs).result =
        .ok (fill StructDecl.name StructDecl.fields ∅ scatteredStructs) := by
      rw [StructTable.build_eq_ok_iff]
      exact ⟨by decide, by simp [scatteredStructs, Decl.Valid], rfl⟩
    have hlists := hstructs scatteredStructs _ hbuild
    exact ⟨_, hbuild, (hlists.of_codePoints _ (by decide) (by decide)).symm, hlists.increasing⟩
  · have hbuild : (FunTable.build scatteredFuns).result =
        .ok (fill FunDef.name FunDef.signature ∅ scatteredFuns) := by
      rw [FunTable.build_eq_ok_iff]
      exact ⟨by decide, by simp [scatteredFuns, Decl.Valid], rfl⟩
    have hlists := hfuns scatteredFuns _ hbuild
    exact ⟨_, hbuild, (hlists.of_codePoints _ (by decide) (by decide)).symm, hlists.increasing⟩

end CoreC
