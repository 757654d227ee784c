/-!
Maps from keys to values that remember the order in which the keys first came up.  A new value for a
known key takes the place of the old one.
-/

namespace ElmSuite

universe u v

/-- A list of entries with a value put under a key, in place or at the end. -/
def putPair {κ : Type u} {α : Type v} [DecidableEq κ] (key : κ) (value : α) :
    List (κ × α) → List (κ × α)
  | [] => [(key, value)]
  | entry :: rest =>
      if entry.1 = key then (key, value) :: rest else entry :: putPair key value rest

theorem mem_keys_putPair {κ : Type u} {α : Type v} [DecidableEq κ] (key : κ) (value : α)
    (entries : List (κ × α)) (other : κ) :
    other ∈ (putPair key value entries).map Prod.fst ↔
      other = key ∨ other ∈ entries.map Prod.fst := by
  induction entries with
  | nil => simp [putPair]
  | cons entry rest ih =>
      by_cases h : entry.1 = key
      · simp only [putPair, h, ↓reduceIte, List.map_cons, List.mem_cons]
        grind
      · simp only [putPair, h, ↓reduceIte, List.map_cons, List.mem_cons, ih]
        grind

theorem nodup_keys_putPair {κ : Type u} {α : Type v} [DecidableEq κ] (key : κ) (value : α)
    (entries : List (κ × α)) (h : (entries.map Prod.fst).Nodup) :
    ((putPair key value entries).map Prod.fst).Nodup := by
  induction entries with
  | nil => simp [putPair]
  | cons entry rest ih =>
      simp only [List.map_cons, List.nodup_cons] at h
      by_cases hkey : entry.1 = key
      · simp only [putPair, hkey, ↓reduceIte, List.map_cons, List.nodup_cons]
        exact ⟨hkey ▸ h.1, h.2⟩
      · simp only [putPair, hkey, ↓reduceIte, List.map_cons, List.nodup_cons]
        refine ⟨?_, ih h.2⟩
        rw [mem_keys_putPair]
        exact fun hmem => hmem.elim hkey h.1

/-- A map from keys to values with an order of its keys. -/
structure OrderedMap (κ : Type u) (α : Type v) where
  entries : List (κ × α)
  keys_nodup : (entries.map Prod.fst).Nodup

namespace OrderedMap

variable {κ : Type u} {α : Type v} {β : Type v}

theorem ext {m n : OrderedMap κ α} (h : m.entries = n.entries) : m = n := by
  cases m
  cases n
  cases h
  rfl

/-- The map without keys. -/
def empty : OrderedMap κ α :=
  ⟨[], List.nodup_nil⟩

instance : EmptyCollection (OrderedMap κ α) := ⟨empty⟩

instance : Inhabited (OrderedMap κ α) := ⟨empty⟩

/-- The keys, in order. -/
def keys (m : OrderedMap κ α) : List κ :=
  m.entries.map Prod.fst

theorem nodup_keys_filter (entries : List (κ × α)) (keep : κ × α → Bool)
    (h : (entries.map Prod.fst).Nodup) : ((entries.filter keep).map Prod.fst).Nodup :=
  h.sublist (List.filter_sublist.map Prod.fst)

/-- The entries whose keys pass a test. -/
def filterKeys (m : OrderedMap κ α) (keep : κ → Bool) : OrderedMap κ α :=
  ⟨m.entries.filter fun entry => keep entry.1, nodup_keys_filter m.entries _ m.keys_nodup⟩

theorem map_fst_mapValue (f : κ → α → β) (entries : List (κ × α)) :
    (entries.map fun entry => (entry.1, f entry.1 entry.2)).map Prod.fst =
      entries.map Prod.fst := by
  simp [Function.comp_def]

/-- The map with every value changed. -/
def mapValues (m : OrderedMap κ α) (f : κ → α → β) : OrderedMap κ β :=
  ⟨m.entries.map fun entry => (entry.1, f entry.1 entry.2),
    (map_fst_mapValue f m.entries).symm ▸ m.keys_nodup⟩

variable [DecidableEq κ]

/-- The value of a key. -/
def get? (m : OrderedMap κ α) (key : κ) : Option α :=
  m.entries.lookup key

/-- Whether a key has a value. -/
def contains (m : OrderedMap κ α) (key : κ) : Bool :=
  m.keys.contains key

/-- The map with a value under a key. -/
def insert (m : OrderedMap κ α) (key : κ) (value : α) : OrderedMap κ α :=
  ⟨putPair key value m.entries, nodup_keys_putPair key value m.entries m.keys_nodup⟩

/-- The map with all entries of a list, later ones winning. -/
def insertMany (m : OrderedMap κ α) (entries : List (κ × α)) : OrderedMap κ α :=
  entries.foldl (fun m entry => m.insert entry.1 entry.2) m

/-- The map of a list of entries, later ones winning. -/
def ofList (entries : List (κ × α)) : OrderedMap κ α :=
  insertMany empty entries

/-- The map with all entries of another, which wins. -/
def update (m n : OrderedMap κ α) : OrderedMap κ α :=
  m.insertMany n.entries

instance [DecidableEq α] : DecidableEq (OrderedMap κ α) := fun m n =>
  if h : m.entries = n.entries then isTrue (ext h) else isFalse fun e => h (e ▸ rfl)

end OrderedMap

end ElmSuite
