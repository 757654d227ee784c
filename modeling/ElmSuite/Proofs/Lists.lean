/-!
Facts about lists and about computations that may fail: one of every member of a list, and lists
without repetition.
-/

namespace ElmSuite

variable {ε α β : Type}

theorem ok_bind (value : α) (f : α → Except ε β) : (Except.ok value >>= f) = f value :=
  rfl

theorem bind_eq_ok {result : Except ε α} {f : α → Except ε β} {value : β} :
    (result >>= f) = .ok value ↔ ∃ first, result = .ok first ∧ f first = .ok value := by
  cases result <;> simp [bind, Except.bind]

/-- What comes after a computation only matters for the value that it has. -/
theorem bind_congr_of_ok {result : Except ε α} {f g : α → Except ε β}
    (h : ∀ value, result = .ok value → f value = g value) : (result >>= f) = (result >>= g) := by
  cases result with
  | error fault => rfl
  | ok value => exact h value rfl

theorem mapError_eq_ok {δ : Type} {result : Except ε α} {f : ε → δ} {value : α} :
    result.mapError f = .ok value ↔ result = .ok value := by
  cases result with
  | error fault => exact ⟨fun h => (by cases h), fun h => (by cases h)⟩
  | ok found => exact ⟨fun h => congrArg _ (Except.ok.inj h), fun h => congrArg _ (Except.ok.inj h)⟩

theorem map_eq_ok {result : Except ε α} {f : α → β} {value : β} :
    result.map f = .ok value ↔ ∃ first, result = .ok first ∧ f first = value := by
  cases result <;> simp [Except.map]

/-- Whatever a computation fails with has a property. -/
def FailsOnly (P : ε → Prop) (result : Except ε α) : Prop :=
  ∀ error, result = .error error → P error

theorem FailsOnly.ok {P : ε → Prop} (value : α) : FailsOnly P (.ok value : Except ε α) := by
  intro error h
  cases h

theorem FailsOnly.error {P : ε → Prop} {error : ε} (h : P error) :
    FailsOnly P (.error error : Except ε α) := by
  intro other heq
  cases heq
  exact h

theorem FailsOnly.mono {P Q : ε → Prop} {result : Except ε α} (h : FailsOnly P result)
    (himp : ∀ error, P error → Q error) : FailsOnly Q result :=
  fun error heq => himp error (h error heq)

theorem FailsOnly.bind {P : ε → Prop} {result : Except ε α} {f : α → Except ε β}
    (h : FailsOnly P result) (hf : ∀ value, result = .ok value → FailsOnly P (f value)) :
    FailsOnly P (result >>= f) := by
  cases result with
  | ok value => exact hf value rfl
  | error error => exact .error (h error rfl)

theorem FailsOnly.map {P : ε → Prop} {result : Except ε α} (h : FailsOnly P result) (f : α → β) :
    FailsOnly P (result.map f) := by
  cases result with
  | ok value => exact .ok _
  | error error => exact .error (h error rfl)

theorem FailsOnly.mapError {δ : Type} {P : δ → Prop} {f : ε → δ} {result : Except ε α}
    (h : FailsOnly (fun error => P (f error)) result) : FailsOnly P (result.mapError f) := by
  cases result with
  | ok value => exact .ok _
  | error error => exact .error (h error rfl)

theorem FailsOnly.mapM {P : ε → Prop} {f : α → Except ε β} {items : List α}
    (h : ∀ item ∈ items, FailsOnly P (f item)) : FailsOnly P (items.mapM f) := by
  induction items with
  | nil => exact .ok []
  | cons item items ih =>
      rw [List.forall_mem_cons] at h
      rw [List.mapM_cons]
      exact .bind h.1 fun _ _ => .bind (ih h.2) fun _ _ => .ok _

/-- The values of a list of computations none of which fails. -/
theorem exists_mapM_ok {f : α → Except ε β} {items : List α}
    (h : ∀ item ∈ items, ∃ value, f item = .ok value) :
    ∃ values, items.mapM f = .ok values ∧ ∀ value, value ∈ values ↔ ∃ item ∈ items, f item = .ok value := by
  induction items with
  | nil => exact ⟨[], rfl, by simp⟩
  | cons item items ih =>
      rw [List.forall_mem_cons] at h
      obtain ⟨⟨first, hfirst⟩, hrest⟩ := h
      obtain ⟨values, hvalues, hmem⟩ := ih hrest
      refine ⟨first :: values, ?_, fun value => ?_⟩
      · rw [List.mapM_cons, hfirst, hvalues]
        rfl
      · simp only [List.mem_cons, hmem, exists_eq_or_imp, hfirst, Except.ok.injEq]
        exact or_congr_left eq_comm

theorem mapM_congr {f g : α → Except ε β} {items : List α} (h : ∀ item ∈ items, f item = g item) :
    items.mapM f = items.mapM g := by
  induction items with
  | nil => rfl
  | cons item items ih =>
      rw [List.forall_mem_cons] at h
      rw [List.mapM_cons, List.mapM_cons, h.1, ih h.2]

theorem exists_of_mem_mapM {f : α → Except ε β} {items : List α} {values : List β}
    (h : items.mapM f = .ok values) : ∀ value ∈ values, ∃ item ∈ items, f item = .ok value := by
  induction items generalizing values with
  | nil =>
      cases h
      simp
  | cons item items ih =>
      rw [List.mapM_cons] at h
      obtain ⟨first, hfirst, h⟩ := bind_eq_ok.1 h
      obtain ⟨rest, hrest, h⟩ := bind_eq_ok.1 h
      cases h
      rw [List.forall_mem_cons]
      refine ⟨⟨item, List.mem_cons_self, hfirst⟩, fun value hvalue => ?_⟩
      obtain ⟨other, hother, heq⟩ := ih hrest value hvalue
      exact ⟨other, List.mem_cons_of_mem _ hother, heq⟩

/-- A list is recovered from what its members became, if each of them is. -/
theorem map_of_mapM {f : α → Except ε β} {back : β → α} {items : List α} {values : List β}
    (hback : ∀ item value, f item = .ok value → back value = item) (h : items.mapM f = .ok values) :
    values.map back = items := by
  induction items generalizing values with
  | nil =>
      cases h
      rfl
  | cons item items ih =>
      rw [List.mapM_cons] at h
      obtain ⟨first, hfirst, h⟩ := bind_eq_ok.1 h
      obtain ⟨rest, hrest, h⟩ := bind_eq_ok.1 h
      cases h
      rw [List.map_cons, hback item first hfirst, ih hrest]

theorem not_mem_of_mem_splitOn [BEq α] [LawfulBEq α] {a : α} {items piece : List α}
    (h : piece ∈ items.splitOn a) : a ∉ piece := by
  induction items generalizing piece with
  | nil =>
      rw [List.splitOn_nil, List.mem_singleton] at h
      subst h
      exact List.not_mem_nil
  | cons item rest ih =>
      rw [List.splitOn_cons_eq_if_modifyHead] at h
      split at h
      · rcases List.mem_cons.1 h with rfl | hpiece
        · exact List.not_mem_nil
        · exact ih hpiece
      · next hitem =>
        obtain ⟨first, more, hsplit⟩ := List.exists_cons_of_ne_nil (List.splitOn_ne_nil a rest)
        rw [hsplit, List.modifyHead_cons] at h
        rcases List.mem_cons.1 h with rfl | hpiece
        · rw [List.mem_cons, not_or]
          refine ⟨fun heq => hitem (by simp [heq]), ih ?_⟩
          rw [hsplit]
          exact List.mem_cons_self
        · apply ih
          rw [hsplit]
          exact List.mem_cons_of_mem _ hpiece

theorem subset_of_mem_splitOn [BEq α] {a : α} {items piece : List α}
    (h : piece ∈ items.splitOn a) : piece ⊆ items := by
  induction items generalizing piece with
  | nil =>
      rw [List.splitOn_nil, List.mem_singleton] at h
      exact h ▸ List.Subset.refl _
  | cons item rest ih =>
      have hrest (other : List α) (hother : other ∈ rest.splitOn a) : other ⊆ item :: rest :=
        List.Subset.trans (ih hother) (List.subset_cons_self item rest)
      rw [List.splitOn_cons_eq_if_modifyHead] at h
      split at h
      · rcases List.mem_cons.1 h with rfl | hpiece
        · exact List.nil_subset _
        · exact hrest piece hpiece
      · obtain ⟨first, more, hsplit⟩ := List.exists_cons_of_ne_nil (List.splitOn_ne_nil a rest)
        rw [hsplit, List.modifyHead_cons] at h
        rcases List.mem_cons.1 h with rfl | hpiece
        · exact List.cons_subset_cons item (ih (by rw [hsplit]; exact List.mem_cons_self))
        · exact hrest piece (by rw [hsplit]; exact List.mem_cons_of_mem _ hpiece)

theorem nodup_eraseDups [BEq α] [LawfulBEq α] (items : List α) : items.eraseDups.Nodup := by
  induction hlength : items.length using Nat.strongRecOn generalizing items with
  | ind bound ih =>
      cases items with
      | nil => exact List.nodup_nil
      | cons item items =>
          have hshort : (items.filter fun other => !other == item).length < bound := by
            have hle := List.length_filter_le (fun other => !other == item) items
            rw [← hlength, List.length_cons]
            omega
          rw [List.eraseDups_cons, List.nodup_cons]
          refine ⟨?_, ih _ hshort _ rfl⟩
          simp

end ElmSuite
