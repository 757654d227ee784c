import ElmSuite.OrderedMap

/-!
Where the entries of ordered maps come from: no operation makes a key or a value that was not given to
it, and a map is the map of its own entries.  What every operation does to the value of a key is told by
one equation.
-/

namespace ElmSuite

variable {κ α : Type}

section

variable [DecidableEq κ]

theorem putPair_of_not_mem {key : κ} {entries : List (κ × α)} (h : key ∉ entries.map Prod.fst)
    (value : α) : putPair key value entries = entries ++ [(key, value)] := by
  induction entries with
  | nil => rfl
  | cons entry entries ih =>
      rw [List.map_cons, List.mem_cons, not_or] at h
      rw [putPair, if_neg (Ne.symm h.1), ih h.2, List.cons_append]

theorem mem_putPair {key : κ} {value : α} {entries : List (κ × α)} {entry : κ × α}
    (h : entry ∈ putPair key value entries) : entry = (key, value) ∨ entry ∈ entries := by
  induction entries with
  | nil => exact .inl (List.mem_singleton.1 h)
  | cons first rest ih =>
      rw [putPair] at h
      split at h
      · rcases List.mem_cons.1 h with heq | hmem
        · exact .inl heq
        · exact .inr (List.mem_cons_of_mem _ hmem)
      · rcases List.mem_cons.1 h with rfl | hmem
        · exact .inr List.mem_cons_self
        · exact (ih hmem).imp_right (List.mem_cons_of_mem _)

namespace OrderedMap

theorem mem_insertMany {m : OrderedMap κ α} {entries : List (κ × α)} {entry : κ × α}
    (h : entry ∈ (m.insertMany entries).entries) : entry ∈ m.entries ∨ entry ∈ entries := by
  induction entries generalizing m with
  | nil => exact .inl h
  | cons first rest ih =>
      rcases ih (m := m.insert first.1 first.2) h with hmem | hmem
      · rcases mem_putPair hmem with rfl | hmem
        · exact .inr List.mem_cons_self
        · exact .inl hmem
      · exact .inr (List.mem_cons_of_mem _ hmem)

theorem mem_update {m n : OrderedMap κ α} {entry : κ × α} (h : entry ∈ (m.update n).entries) :
    entry ∈ m.entries ∨ entry ∈ n.entries :=
  mem_insertMany h

theorem mem_ofList {entries : List (κ × α)} {entry : κ × α}
    (h : entry ∈ (ofList entries).entries) : entry ∈ entries :=
  (mem_insertMany h).resolve_left List.not_mem_nil

theorem entries_insertMany {m : OrderedMap κ α} {entries : List (κ × α)}
    (h : ((m.entries ++ entries).map Prod.fst).Nodup) :
    (m.insertMany entries).entries = m.entries ++ entries := by
  induction entries generalizing m with
  | nil => exact (List.append_nil _).symm
  | cons first rest ih =>
      have hfresh : first.1 ∉ m.entries.map Prod.fst := by
        rw [List.map_append, List.nodup_append] at h
        exact fun hmem => h.2.2 _ hmem _ (by simp) rfl
      have hinsert : (m.insert first.1 first.2).entries = m.entries ++ [first] :=
        putPair_of_not_mem hfresh first.2
      have hrest := ih (m := m.insert first.1 first.2)
        (by rw [hinsert, List.append_assoc]; exact h)
      rw [hinsert, List.append_assoc] at hrest
      exact hrest

/-- A map is the map of its entries. -/
theorem ofList_entries (m : OrderedMap κ α) : ofList m.entries = m :=
  ext (entries_insertMany (m := empty) m.keys_nodup)

/-! ### Values of keys -/

theorem lookup_cons_eq (entry : κ × α) (rest : List (κ × α)) (key : κ) :
    (entry :: rest).lookup key = if key = entry.1 then some entry.2 else rest.lookup key := by
  rw [List.lookup_cons]
  by_cases hkey : key = entry.1
  · rw [if_pos hkey, beq_iff_eq.2 hkey]
  · rw [if_neg hkey, beq_eq_false_iff_ne.2 hkey]

theorem lookup_putPair (key : κ) (value : α) (entries : List (κ × α)) (other : κ) :
    (putPair key value entries).lookup other =
      if other = key then some value else entries.lookup other := by
  induction entries with
  | nil => exact lookup_cons_eq (key, value) [] other
  | cons entry rest ih =>
      by_cases hentry : entry.1 = key
      · rw [putPair, if_pos hentry, lookup_cons_eq, lookup_cons_eq, hentry]
        split <;> rfl
      · rw [putPair, if_neg hentry, lookup_cons_eq, lookup_cons_eq, ih]
        by_cases hkey : other = key
        · rw [if_pos hkey, if_pos hkey, if_neg fun heq => hentry (heq.symm.trans hkey)]
        · rw [if_neg hkey, if_neg hkey]

theorem get?_insert (m : OrderedMap κ α) (key : κ) (value : α) (other : κ) :
    (m.insert key value).get? other = if other = key then some value else m.get? other :=
  lookup_putPair key value m.entries other

theorem lookup_of_not_mem {key : κ} {entries : List (κ × α)} (h : key ∉ entries.map Prod.fst) :
    entries.lookup key = none := by
  rw [List.lookup_eq_none_iff]
  intro entry hentry
  rw [bne_iff_ne]
  exact fun heq => h (heq ▸ List.mem_map_of_mem hentry)

/-- The values that there are, looked up among values that may be missing. -/
theorem lookup_filterMap_map {entries : List (κ × Option α)} (h : (entries.map Prod.fst).Nodup) (key : κ) :
    (entries.filterMap fun entry => entry.2.map fun value => (entry.1, value)).lookup key =
      (entries.lookup key).join := by
  induction entries with
  | nil => rfl
  | cons entry rest ih =>
      rw [List.map_cons, List.nodup_cons] at h
      obtain ⟨other, found⟩ := entry
      rw [lookup_cons_eq]
      cases found with
      | none =>
          rw [List.filterMap_cons_none rfl, ih h.2]
          split
          · next hkey =>
            rw [hkey, lookup_of_not_mem h.1]
            rfl
          · rfl
      | some value =>
          have hsome : ((other, some value) :: rest).filterMap
              (fun entry => entry.2.map fun value => (entry.1, value)) =
                (other, value) :: rest.filterMap fun entry => entry.2.map fun value => (entry.1, value) :=
            List.filterMap_cons_some rfl
          rw [hsome, lookup_cons_eq, ih h.2]
          split <;> rfl

theorem get?_insertMany (m : OrderedMap κ α) {entries : List (κ × α)}
    (h : (entries.map Prod.fst).Nodup) (key : κ) :
    (m.insertMany entries).get? key = (entries.lookup key).or (m.get? key) := by
  induction entries generalizing m with
  | nil => rfl
  | cons entry rest ih =>
      rw [List.map_cons, List.nodup_cons] at h
      change ((m.insert entry.1 entry.2).insertMany rest).get? key = _
      rw [ih _ h.2, get?_insert, lookup_cons_eq]
      by_cases hkey : key = entry.1
      · rw [if_pos hkey, if_pos hkey, hkey, lookup_of_not_mem h.1, Option.none_or, Option.some_or]
      · rw [if_neg hkey, if_neg hkey]

theorem get?_update (m n : OrderedMap κ α) (key : κ) :
    (m.update n).get? key = (n.get? key).or (m.get? key) :=
  get?_insertMany m n.keys_nodup key

theorem get?_filterKeys (m : OrderedMap κ α) (keep : κ → Bool) (key : κ) :
    (m.filterKeys keep).get? key = if keep key then m.get? key else none := by
  obtain ⟨entries, hnodup⟩ := m
  change (entries.filter fun entry => keep entry.1).lookup key = if keep key then entries.lookup key else none
  clear hnodup
  induction entries with
  | nil => exact (ite_self none).symm
  | cons entry rest ih =>
      rw [lookup_cons_eq]
      by_cases hkeep : keep entry.1 = true
      · rw [List.filter_cons, if_pos hkeep, lookup_cons_eq, ih]
        by_cases hkey : key = entry.1
        · rw [if_pos hkey, if_pos hkey, hkey, if_pos hkeep]
        · rw [if_neg hkey, if_neg hkey]
      · rw [List.filter_cons, if_neg hkeep, ih]
        by_cases hkey : key = entry.1
        · rw [hkey, if_neg hkeep, if_neg hkeep]
        · rw [if_neg hkey]

theorem get?_mapValues {β : Type} (m : OrderedMap κ α) (f : κ → α → β) (key : κ) :
    (m.mapValues f).get? key = (m.get? key).map (f key) := by
  obtain ⟨entries, hnodup⟩ := m
  change (entries.map fun entry => (entry.1, f entry.1 entry.2)).lookup key =
    (entries.lookup key).map (f key)
  clear hnodup
  induction entries with
  | nil => rfl
  | cons entry rest ih =>
      rw [List.map_cons, lookup_cons_eq, lookup_cons_eq, ih]
      by_cases hkey : key = entry.1
      · rw [if_pos hkey, if_pos hkey, hkey, Option.map_some]
      · rw [if_neg hkey, if_neg hkey]

theorem isSome_get?_iff (m : OrderedMap κ α) (key : κ) : (m.get? key).isSome = true ↔ key ∈ m.keys := by
  rw [get?, List.lookup_isSome_iff, keys, List.mem_map]
  exact exists_congr fun entry => and_congr_right fun _ => beq_iff_eq.trans eq_comm

theorem get?_eq_none {m : OrderedMap κ α} {key : κ} (h : key ∉ m.keys) : m.get? key = none := by
  rw [← isSome_get?_iff, Bool.not_eq_true, Option.isSome_eq_false_iff, Option.isNone_iff_eq_none] at h
  exact h

theorem mem_entries_iff (m : OrderedMap κ α) (entry : κ × α) :
    entry ∈ m.entries ↔ m.get? entry.1 = some entry.2 := by
  obtain ⟨entries, hnodup⟩ := m
  change entry ∈ entries ↔ entries.lookup entry.1 = some entry.2
  induction entries with
  | nil => simp
  | cons first rest ih =>
      rw [List.map_cons, List.nodup_cons] at hnodup
      rw [lookup_cons_eq, List.mem_cons, ih hnodup.2]
      by_cases hkey : entry.1 = first.1
      · have hrest : rest.lookup entry.1 ≠ some entry.2 := by
          intro hlookup
          have hmem := (ih hnodup.2).2 hlookup
          exact hnodup.1 (hkey ▸ List.mem_map_of_mem hmem)
        rw [if_pos hkey, Option.some.injEq, or_iff_left hrest, Prod.ext_iff, and_iff_right hkey, eq_comm]
      · rw [if_neg hkey, or_iff_right fun heq => hkey (congrArg Prod.fst heq)]

/-- Maps with the same values differ in the order of their keys at most. -/
theorem perm_entries {m n : OrderedMap κ α} (h : ∀ key, m.get? key = n.get? key) :
    m.entries.Perm n.entries := by
  have hnodup (m : OrderedMap κ α) : m.entries.Nodup :=
    List.Pairwise.of_map Prod.fst (fun _ _ hne heq => hne (congrArg Prod.fst heq)) m.keys_nodup
  rw [List.perm_ext_iff_of_nodup (hnodup m) (hnodup n)]
  intro entry
  rw [mem_entries_iff, mem_entries_iff, h]

theorem contains_iff (m : OrderedMap κ α) (key : κ) : m.contains key = true ↔ key ∈ m.keys :=
  List.contains_iff_mem

/-! ### The order of keys -/

theorem map_fst_putPair (key : κ) (value : α) (entries : List (κ × α)) :
    (putPair key value entries).map Prod.fst =
      if key ∈ entries.map Prod.fst then entries.map Prod.fst else entries.map Prod.fst ++ [key] := by
  induction entries with
  | nil => rfl
  | cons entry rest ih =>
      by_cases hkey : entry.1 = key
      · rw [putPair, if_pos hkey, List.map_cons, List.map_cons, hkey, if_pos List.mem_cons_self]
      · rw [putPair, if_neg hkey, List.map_cons, List.map_cons, ih]
        simp only [List.mem_cons, Ne.symm hkey, false_or]
        split <;> rfl

/-- The keys of new entries stand behind those that a map has already. -/
theorem keys_insertMany (m : OrderedMap κ α) {entries : List (κ × α)}
    (h : (entries.map Prod.fst).Nodup) :
    (m.insertMany entries).keys = m.keys ++ (entries.map Prod.fst).filter fun key => !m.contains key := by
  induction entries generalizing m with
  | nil => exact (List.append_nil _).symm
  | cons entry rest ih =>
      rw [List.map_cons, List.nodup_cons] at h
      have hkeys : (m.insert entry.1 entry.2).keys =
          if entry.1 ∈ m.keys then m.keys else m.keys ++ [entry.1] := map_fst_putPair _ _ _
      have hrest : ((rest.map Prod.fst).filter fun key => !(m.insert entry.1 entry.2).contains key) =
          (rest.map Prod.fst).filter fun key => !m.contains key := by
        refine List.filter_congr fun key hkey => ?_
        have hne : key ≠ entry.1 := fun heq => h.1 (heq ▸ hkey)
        unfold contains
        rw [hkeys]
        split
        · rfl
        · simp [hne]
      change ((m.insert entry.1 entry.2).insertMany rest).keys = _
      rw [ih _ h.2, hkeys, hrest, List.map_cons, List.filter_cons]
      by_cases hmem : entry.1 ∈ m.keys
      · simp [hmem, contains]
      · simp [hmem, contains]

theorem keys_update (m n : OrderedMap κ α) :
    (m.update n).keys = m.keys ++ n.keys.filter fun key => !m.contains key :=
  keys_insertMany m n.keys_nodup

end OrderedMap

end

theorem OrderedMap.filterKeys_eq_self {m : OrderedMap κ α} {keep : κ → Bool}
    (h : ∀ key ∈ m.keys, keep key = true) : m.filterKeys keep = m :=
  ext (List.filter_eq_self.2 fun entry hentry => h entry.1 (List.mem_map_of_mem hentry))

/-- A value that is looked up is one of the entries. -/
theorem mem_of_lookup {_ : BEq κ} [LawfulBEq κ] {key : κ} {value : α} {entries : List (κ × α)}
    (h : entries.lookup key = some value) : (key, value) ∈ entries := by
  obtain ⟨before, after, rfl, -⟩ := List.lookup_eq_some_iff.1 h
  exact List.mem_append_right _ List.mem_cons_self

end ElmSuite
