import CoreC.Proofs.Interchange.Shapes

/-!
# Reading records

A group of named fields is read by its names exactly if it is one: `Json.fields?_eq_some_iff` where fields may be left out,
`Json.record?_eq_some_iff` where none may.

In an object, the members under one name are told from the others by their keys (`Json.unique?_eq_some_iff`), which leaves
the order out. Name by name, the members are then taken off and what is left stands under other keys
(`Json.split_of_unique?`); the other way round, members of fields are found among any others.
-/

namespace CoreC.Json

/-! ## Members by their keys -/

/-- A member under the text of its key; under the empty text if the key has none. -/
def keyed (m : List Piece × Json) : String × Json :=
  ((Piece.text? m.1).getD "", m.2)

theorem keyed_fst_of_spells {m : List Piece × Json} {name : String} (h : Spells m.1 name.toList) :
    (keyed m).1 = name := by
  rw [keyed, Piece.text?_eq_some_iff.2 h, Option.getD_some]

theorem spells_keyed_fst {m : List Piece × Json} (h : ∃ key, Piece.text? m.1 = some key) :
    Spells m.1 (keyed m).1.toList := by
  obtain ⟨key, hkey⟩ := h
  rw [← Piece.text?_eq_some_iff, keyed, hkey, Option.getD_some]

/-- Members have keys exactly if each of them spells one. -/
theorem keyed?_eq_some_iff {ms : List (List Piece × Json)} {keys : List (String × Json)} :
    keyed? ms = some keys ↔ (∀ m ∈ ms, ∃ key, Piece.text? m.1 = some key) ∧ keys = ms.map keyed := by
  rw [keyed?, mapM_eq_some_iff]
  induction ms generalizing keys with
  | nil => cases keys <;> simp
  | cons m ms ih =>
    cases keys with
    | nil => simp
    | cons k keys =>
      rw [List.map_cons, List.map_cons, List.cons.injEq, ih, Option.map_eq_some_iff]
      rw [List.map_cons, List.cons.injEq, List.forall_mem_cons]
      refine ⟨fun h => ?_, fun h => ?_⟩
      · obtain ⟨⟨key, hkey, rfl⟩, hall, hkeys⟩ := h
        exact ⟨⟨⟨key, hkey⟩, hall⟩, by rw [keyed, hkey, Option.getD_some], hkeys⟩
      · obtain ⟨⟨⟨key, hkey⟩, hall⟩, rfl, hkeys⟩ := h
        exact ⟨⟨key, hkey, by rw [keyed, hkey, Option.getD_some]⟩, hall, hkeys⟩

/-- A name is unique with an answer exactly if the members under it are those of the answer. -/
theorem unique?_eq_some_iff {l : List (String × Json)} {name : String} {v : Option Json} :
    unique? l name = some v ↔ l.filter (·.1 = name) = v.toList.map (name, ·) := by
  unfold unique?
  split
  · rename_i hf
    rw [hf]
    cases v <;> simp
  · rename_i key value hf
    have hkey : (key, value) ∈ l.filter (·.1 = name) := hf ▸ List.mem_cons_self
    rw [List.mem_filter, decide_eq_true_eq] at hkey
    rw [hf, ← hkey.2]
    cases v <;> simp
  · rename_i hnil hone
    refine ⟨nofun, fun h => ?_⟩
    cases v with
    | none => exact absurd h hnil
    | some value => exact absurd h (hone _ _)

/-- A member of another key does not count. -/
theorem unique?_cons_of_ne {l : List (String × Json)} {m : String × Json} {name : String} (h : m.1 ≠ name) :
    unique? (m :: l) name = unique? l name := by
  simp [unique?, h]

theorem unique?_filter_ne {l : List (String × Json)} {name other : String} (h : name ≠ other) :
    unique? (l.filter (·.1 ≠ other)) name = unique? l name := by
  have hf : (l.filter (·.1 ≠ other)).filter (·.1 = name) = l.filter (·.1 = name) := by
    rw [List.filter_filter]
    refine List.filter_congr fun m _ => ?_
    by_cases hm : m.1 = name <;> simp [hm, h]
  simp only [unique?, hf]

/-- What stands under a name does not depend on the order. -/
theorem unique?_perm {l l' : List (String × Json)} (h : l.Perm l') (name : String) :
    unique? l name = unique? l' name := by
  have himp : ∀ {l l' : List (String × Json)}, l.Perm l' → ∀ v, unique? l' name = some v → unique? l name = some v := by
    intro l l' h v hv
    rw [unique?_eq_some_iff] at hv ⊢
    have hf := h.filter (·.1 = name)
    rw [hv] at hf
    cases v with
    | none => exact List.perm_nil.1 hf
    | some value => exact List.perm_singleton.1 hf
  exact Option.ext fun v => ⟨himp h.symm v, himp h v⟩

/-! ## Members of fields -/

/-- The member of a field stands under the name of the field. -/
theorem spells_of_members {fields : List (String × Option Json)} {named : List (List Piece × Json)}
    (h : Members fields named) {m : List Piece × Json} (hm : m ∈ named) :
    ∃ name ∈ fields.map Prod.fst, Spells m.1 name.toList := by
  induction h with
  | nil => cases hm
  | @given name key value fields named hkey hmembers ih =>
    rcases List.mem_cons.1 hm with rfl | hm
    · exact ⟨name, List.mem_cons_self, hkey⟩
    · obtain ⟨n, hn, hs⟩ := ih hm
      exact ⟨n, List.mem_cons_of_mem _ hn, hs⟩
  | absent hmembers ih =>
    obtain ⟨n, hn, hs⟩ := ih hm
    exact ⟨n, List.mem_cons_of_mem _ hn, hs⟩

/-- No member stands under a name that neither a field nor another member has. -/
theorem filter_name_eq_nil {fields : List (String × Option Json)} {named : List (List Piece × Json)}
    (h : Members fields named) {others : List (String × Json)} {name : String} (hname : name ∉ fields.map Prod.fst)
    (hothers : ∀ m ∈ others, m.1 ≠ name) : (named.map keyed ++ others).filter (·.1 = name) = [] := by
  rw [List.filter_eq_nil_iff]
  intro m hm
  rw [decide_eq_true_eq]
  intro he
  rcases List.mem_append.1 hm with hm | hm
  · obtain ⟨m', hm', rfl⟩ := List.mem_map.1 hm
    obtain ⟨n, hn, hs⟩ := spells_of_members h hm'
    rw [keyed_fst_of_spells hs] at he
    exact hname (he ▸ hn)
  · exact hothers m hm he

/-- The members of fields are found under the names of the fields, whatever stands under other names. -/
theorem map_unique?_of_members {fields : List (String × Option Json)} {named : List (List Piece × Json)}
    (h : Members fields named) (hnodup : (fields.map Prod.fst).Nodup) {others : List (String × Json)}
    (hothers : ∀ m ∈ others, m.1 ∉ fields.map Prod.fst) :
    (fields.map Prod.fst).map (unique? (named.map keyed ++ others)) = (fields.map Prod.snd).map some := by
  induction h with
  | nil => rfl
  | @given name key value fields named hkey hmembers ih =>
    obtain ⟨hname, hnodup⟩ := List.nodup_cons.1 hnodup
    have htail : ∀ m ∈ others, m.1 ∉ fields.map Prod.fst :=
      fun m hm hmem => hothers m hm (List.mem_cons_of_mem _ hmem)
    have hnone := filter_name_eq_nil hmembers hname fun m hm he => hothers m hm (he ▸ List.mem_cons_self)
    have hkeyed : keyed (key, value) = (name, value) := Prod.ext (keyed_fst_of_spells hkey) rfl
    simp only [List.map_cons, List.cons_append, hkeyed, List.cons.injEq]
    refine ⟨unique?_eq_some_iff.2 (by simp [hnone]), ?_⟩
    rw [← ih hnodup htail]
    refine List.map_congr_left fun n hn => ?_
    have hne : name ≠ n := fun he => hname (he ▸ hn)
    exact unique?_cons_of_ne hne
  | @absent name fields named hmembers ih =>
    obtain ⟨hname, hnodup⟩ := List.nodup_cons.1 hnodup
    have htail : ∀ m ∈ others, m.1 ∉ fields.map Prod.fst :=
      fun m hm hmem => hothers m hm (List.mem_cons_of_mem _ hmem)
    have hnone := filter_name_eq_nil hmembers hname fun m hm he => hothers m hm (he ▸ List.mem_cons_self)
    simp only [List.map_cons, List.cons.injEq]
    exact ⟨unique?_eq_some_iff.2 hnone, ih hnodup htail⟩

/-- A unique name takes its field off the members and leaves what stands under all other names. -/
theorem split_of_unique? {ms : List (List Piece × Json)} (hkeys : ∀ m ∈ ms, ∃ key, Piece.text? m.1 = some key)
    {name : String} {v : Option Json} (h : unique? (ms.map keyed) name = some v) :
    ∃ mine rest, ms.Perm (mine ++ rest) ∧
      (∀ fields named, Members fields named → Members ((name, v) :: fields) (mine ++ named)) ∧
      (∀ m ∈ rest, (keyed m).1 ≠ name) ∧ ∀ n, n ≠ name → unique? (rest.map keyed) n = unique? (ms.map keyed) n := by
  rw [unique?_eq_some_iff, List.filter_map] at h
  refine ⟨ms.filter ((fun m => decide (m.1 = name)) ∘ keyed), ms.filter ((fun m => decide (m.1 ≠ name)) ∘ keyed),
    ?_, ?_, ?_, ?_⟩
  · have hsplit := List.filter_append_perm ((fun m => decide (m.1 = name)) ∘ keyed) ms
    simpa [Function.comp_def] using hsplit.symm
  · intro fields named hmembers
    cases v with
    | none =>
      rw [List.map_eq_nil_iff.1 h]
      exact .absent hmembers
    | some value =>
      obtain ⟨m, hm, hkeyed⟩ := List.map_eq_singleton_iff.1 h
      have hmem : m ∈ ms := (List.mem_filter.1 (hm ▸ List.mem_cons_self)).1
      have hkey := spells_keyed_fst (hkeys m hmem)
      obtain ⟨hname, rfl⟩ := Prod.mk.inj hkeyed
      rw [show (keyed m).1 = name from hname] at hkey
      rw [hm]
      exact .given hkey hmembers
  · intro m hm
    simpa using (List.mem_filter.1 hm).2
  · intro n hn
    rw [← List.filter_map, unique?_filter_ne hn]

/-- Where each name stands at most once, the members are those of the fields and those under other names. -/
theorem members_of_map_unique? {names : List String} (hnodup : names.Nodup) {ms : List (List Piece × Json)}
    (hkeys : ∀ m ∈ ms, ∃ key, Piece.text? m.1 = some key) {vs : List (Option Json)}
    (h : names.map (unique? (ms.map keyed)) = vs.map some) :
    ∃ named others, ms.Perm (named ++ others) ∧ Members (names.zip vs) named ∧ ∀ m ∈ others, (keyed m).1 ∉ names := by
  -- each name takes its member away, so the rest of the names is read from fewer members
  induction names generalizing ms vs with
  | nil => exact ⟨[], ms, List.Perm.refl ms, .nil, fun _ _ => List.not_mem_nil⟩
  | cons name names ih =>
    obtain ⟨hname, hnodup⟩ := List.nodup_cons.1 hnodup
    cases vs with
    | nil => cases h
    | cons v vs =>
      rw [List.map_cons, List.map_cons, List.cons.injEq] at h
      obtain ⟨hv, hvs⟩ := h
      obtain ⟨mine, rest, hsplit, hmine, hne, hsame⟩ := split_of_unique? hkeys hv
      have hrest : names.map (unique? (rest.map keyed)) = vs.map some := by
        rw [← hvs]
        exact List.map_congr_left fun n hn => hsame n fun he => hname (he ▸ hn)
      have hsub : ∀ m ∈ rest, m ∈ ms := fun m hm => hsplit.symm.subset (List.mem_append_right mine hm)
      obtain ⟨named, others, hperm, hmembers, hothers⟩ := ih hnodup (fun m hm => hkeys m (hsub m hm)) hrest
      refine ⟨mine ++ named, others, ?_, hmine _ _ hmembers, ?_⟩
      · rw [List.append_assoc]
        exact hsplit.trans (hperm.append_left mine)
      · intro m hm hmem
        rcases List.mem_cons.1 hmem with he | hmem
        · exact hne m (hperm.symm.subset (List.mem_append_right named hm)) he
        · exact hothers m hm hmem

/-- All keys of a group of fields have a text. -/
theorem text?_of_members {ms named others : List (List Piece × Json)} {fields : List (String × Option Json)}
    (hperm : ms.Perm (named ++ others)) (hmembers : Members fields named)
    (hothers : ∀ m ∈ others, ∃ key : String, Spells m.1 key.toList ∧ ∀ field ∈ fields, field.1 ≠ key) :
    ∀ m ∈ ms, ∃ key, Piece.text? m.1 = some key := by
  intro m hm
  rcases List.mem_append.1 (hperm.subset hm) with hm | hm
  · obtain ⟨name, -, hs⟩ := spells_of_members hmembers hm
    exact ⟨name, Piece.text?_eq_some_iff.2 hs⟩
  · obtain ⟨key, hs, -⟩ := hothers m hm
    exact ⟨key, Piece.text?_eq_some_iff.2 hs⟩

/-- The fields are found under their names in any order and among any members under other keys. -/
theorem map_unique?_of_perm {ms named others : List (List Piece × Json)} {fields : List (String × Option Json)}
    (hnodup : (fields.map Prod.fst).Nodup) (hperm : ms.Perm (named ++ others)) (hmembers : Members fields named)
    (hothers : ∀ m ∈ others, ∃ key : String, Spells m.1 key.toList ∧ ∀ field ∈ fields, field.1 ≠ key) :
    (fields.map Prod.fst).map (unique? (ms.map keyed)) = (fields.map Prod.snd).map some := by
  have hother : ∀ m ∈ others.map keyed, m.1 ∉ fields.map Prod.fst := by
    intro m hm hmem
    obtain ⟨m', hm', rfl⟩ := List.mem_map.1 hm
    obtain ⟨key, hs, hne⟩ := hothers m' hm'
    obtain ⟨field, hfield, he⟩ := List.mem_map.1 hmem
    exact hne field hfield (he.trans (keyed_fst_of_spells hs))
  have hfound := map_unique?_of_members hmembers hnodup hother
  rw [← List.map_append] at hfound
  rw [← hfound]
  exact List.map_congr_left fun n _ => unique?_perm (hperm.map keyed) n

/-! ## Groups of fields -/

/-- An object is read by its names exactly if its members are fields under these names and others. -/
theorem fields?_object_eq_some_iff {names : List String} (hnodup : names.Nodup) {ms : List (List Piece × Json)}
    {vs : List (Option Json)} : (Json.object ms).fields? names = some vs ↔
      vs.length = names.length ∧ (Json.object ms).Parts (names.zip vs) := by
  simp only [fields?, Option.bind_eq_bind, Option.bind_eq_some_iff, keyed?_eq_some_iff, mapM_eq_some_iff]
  refine ⟨fun h => ?_, fun h => ?_⟩
  · obtain ⟨keys, ⟨hkeys, rfl⟩, hvs⟩ := h
    have hlen : vs.length = names.length := by
      have := congrArg List.length hvs
      simpa using this.symm
    obtain ⟨named, others, hperm, hmembers, hothers⟩ := members_of_map_unique? hnodup hkeys hvs
    refine ⟨hlen, .object hperm hmembers fun m hm => ?_⟩
    have hmem : m ∈ ms := hperm.symm.subset (List.mem_append_right named hm)
    refine ⟨(keyed m).1, spells_keyed_fst (hkeys m hmem), fun field hfield he => ?_⟩
    exact hothers m hm (he ▸ (List.of_mem_zip hfield).1)
  · obtain ⟨hlen, h⟩ := h
    have hnames : (names.zip vs).map Prod.fst = names := List.map_fst_zip (by omega)
    have hvs : (names.zip vs).map Prod.snd = vs := List.map_snd_zip (by omega)
    cases h with
    | object hperm hmembers hothers =>
      have hfound := map_unique?_of_perm (hnames.symm ▸ hnodup) hperm hmembers hothers
      rw [hnames, hvs] at hfound
      exact ⟨ms.map keyed, ⟨text?_of_members hperm hmembers hothers, rfl⟩, hfound⟩

/-- An array is read by names exactly if it holds fields under these names, the last of them perhaps missing. -/
theorem fields?_array_eq_some_iff {names : List String} {es : List Json} {vs : List (Option Json)} :
    (Json.array es).fields? names = some vs ↔ vs.length = names.length ∧ (Json.array es).Parts (names.zip vs) := by
  simp only [fields?]
  refine ⟨fun h => ?_, fun h => ?_⟩
  · split at h
    · rename_i hle
      cases h
      have hlen : (es.map some ++ List.replicate (names.length - es.length) none).length = names.length := by
        simp only [List.length_append, List.length_map, List.length_replicate]
        omega
      exact ⟨hlen, .array _ (List.map_snd_zip (by omega))⟩
    · cases h
  · obtain ⟨hlen, h⟩ := h
    cases h with
    | array missing h =>
      rw [List.map_snd_zip (by omega)] at h
      have hlen' : es.length + missing = names.length := by
        rw [← hlen, h]
        simp
      rw [if_pos (by omega), h, show names.length - es.length = missing by omega]

/-- A group of fields is read by its names exactly if it is one. -/
theorem fields?_eq_some_iff {names : List String} (hnodup : names.Nodup) {j : Json} {vs : List (Option Json)} :
    j.fields? names = some vs ↔ vs.length = names.length ∧ j.Parts (names.zip vs) := by
  cases j with
  | object ms => exact fields?_object_eq_some_iff hnodup
  | array es => exact fields?_array_eq_some_iff
  | null | bool | number | string =>
    refine ⟨nofun, fun h => ?_⟩
    cases h.2

/-- A record is read by its names exactly if it is one. -/
theorem record?_eq_some_iff {names : List String} (hnodup : names.Nodup) {j : Json} {vs : List Json} :
    j.record? names = some vs ↔ vs.length = names.length ∧ j.Record (names.zip vs) := by
  have hfields : j.record? names = some vs ↔ j.fields? names = some (vs.map some) := by
    simp only [record?, Option.bind_eq_bind, Option.bind_eq_some_iff, mapM_eq_some_iff, List.map_id, exists_eq_right]
  rw [hfields, fields?_eq_some_iff hnodup, List.length_map, Record, List.zip_map_right]
  rfl

end CoreC.Json
