import ElmSuite.Proofs.Lists
import ElmSuite.Tool.Basic

/-!
Running actions: one equation for every way to make an action, and what an action leaves of the
world whether or not it has a result.
-/

namespace ElmSuite.Act

variable {α β : Type}

@[simp]
theorem run_pure (value : α) (world : World) :
    (pure value : Act α).run world = (.ok value, world) :=
  rfl

@[simp]
theorem run_bind (act : Act α) (next : α → Act β) (world : World) :
    (act >>= next).run world =
      match act.run world with
      | (.ok value, after) => (next value).run after
      | (.error trouble, after) => (.error trouble, after) := by
  unfold Act.run
  simp only [bind, ExceptT.bind, ExceptT.mk, StateT.bind]
  rcases h : act world with ⟨_ | _, after⟩ <;> rfl

@[simp]
theorem run_map (act : Act α) (f : α → β) (world : World) :
    (f <$> act).run world = ((act.run world).1.map f, (act.run world).2) := by
  rw [map_eq_pure_bind, run_bind]
  rcases act.run world with ⟨_ | _, after⟩ <;> rfl

@[simp]
theorem run_ofTrouble (result : Except Trouble α) (world : World) :
    (ofTrouble result).run world = (result, world) :=
  rfl

@[simp]
theorem run_ofFailure (result : Except Failure α) (world : World) :
    (ofFailure result).run world = (result.mapError .failure, world) :=
  rfl

@[simp]
theorem run_ofFault (result : Except Fault α) (world : World) :
    (ofFault result).run world = (result.mapError .fault, world) :=
  rfl

@[simp]
theorem run_fail (cause : Failure) (world : World) :
    (fail cause : Act α).run world = (.error (.failure cause), world) :=
  rfl

@[simp]
theorem run_say (line : Line) (world : World) :
    (say line).run world = (.ok (), { world with lines := world.lines ++ [line] }) :=
  rfl

@[simp]
theorem run_report (text : String) (world : World) :
    (report text).run world = (.ok (), { world with lines := world.lines ++ [.progress text] }) :=
  rfl

@[simp]
theorem run_note (part text : String) (world : World) :
    (note part text).run world = (.ok (), { world with lines := world.lines ++ [.note part text] }) :=
  rfl

@[simp]
theorem run_record (call : ToolCall) (world : World) :
    (record call).run world = (.ok (), { world with calls := world.calls ++ [call] }) :=
  rfl

@[simp]
theorem run_affect (effect : Disk → Disk) (world : World) :
    (affect effect).run world = (.ok (), { world with disk := effect world.disk }) :=
  rfl

@[simp]
theorem run_get (world : World) : (get : Act World).run world = (.ok world, world) :=
  rfl

@[simp]
theorem run_disk (world : World) : disk.run world = (.ok world.disk, world) :=
  rfl

@[simp]
theorem run_look (question : Disk → Except Fault α) (world : World) :
    (look question).run world = ((question world.disk).mapError .fault, world) :=
  rfl

theorem run_change (operation : Disk → Except Fault Disk) (world : World) :
    (change operation).run world =
      match operation world.disk with
      | .ok disk => (.ok (), { world with disk })
      | .error fault => (.error (.fault fault), world) := by
  rw [change, run_bind, run_look]
  cases operation world.disk <;> rfl

theorem run_makeFolders (path : Path) (world : World) :
    (makeFolders path).run world =
      ((Disk.makeFolders path world.disk).1.mapError .fault,
        { world with disk := (Disk.makeFolders path world.disk).2 }) :=
  rfl

@[simp]
theorem run_failToStart (executable : String) (error : OsError) (world : World) :
    (failToStart executable error : Act α).run world =
      (.error (.failure (.toolNotStarted executable (some error.message))), world) :=
  rfl

theorem run_orElse (act : Act α) (known : Fault → Option Trouble) (world : World) :
    (act.orElse known).run world =
      match act.run world with
      | (.ok value, after) => (.ok value, after)
      | (.error (.failure cause), after) => (.error (.failure cause), after)
      | (.error (.fault fault), after) => (.error ((known fault).getD (.fault fault)), after) := by
  unfold Act.run orElse
  simp only [tryCatch, tryCatchThe, MonadExceptOf.tryCatch, ExceptT.tryCatch, ExceptT.mk, bind,
    StateT.bind]
  rcases h : act world with ⟨trouble | _, after⟩
  · cases trouble <;> rfl
  · rfl

/-- A sequence has a result exactly if its parts have. -/
theorem run_bind_eq_ok {act : Act α} {next : α → Act β} {world after : World} {value : β} :
    (act >>= next).run world = (.ok value, after) ↔
      ∃ first between, act.run world = (.ok first, between) ∧
        (next first).run between = (.ok value, after) := by
  rw [run_bind]
  rcases act.run world with ⟨_ | first, between⟩
  · simp
  · constructor
    · exact fun h => ⟨first, between, rfl, h⟩
    · rintro ⟨_, _, h, hnext⟩
      cases h
      exact hnext

/-- What goes wrong in a sequence goes wrong in one of its parts. -/
theorem run_bind_eq_error {act : Act α} {next : α → Act β} {world after : World} {trouble : Trouble} :
    (act >>= next).run world = (.error trouble, after) ↔
      act.run world = (.error trouble, after) ∨
        ∃ first between, act.run world = (.ok first, between) ∧
          (next first).run between = (.error trouble, after) := by
  rw [run_bind]
  rcases act.run world with ⟨_ | first, between⟩
  · simp
  · constructor
    · exact fun h => .inr ⟨first, between, rfl, h⟩
    · rintro (h | ⟨_, _, h, hnext⟩)
      · cases h
      · cases h
        exact hnext

theorem run_map_eq_ok {act : Act α} {f : α → β} {world after : World} {value : β} :
    (f <$> act).run world = (.ok value, after) ↔
      ∃ first, act.run world = (.ok first, after) ∧ f first = value := by
  rw [run_map]
  rcases act.run world with ⟨_ | first, between⟩
  · simp [Except.map]
  · simp [Except.map, and_comm, and_left_comm]

theorem run_map_eq_error {act : Act α} {f : α → β} {world after : World} {trouble : Trouble} :
    (f <$> act).run world = (.error trouble, after) ↔ act.run world = (.error trouble, after) := by
  rw [run_map]
  rcases act.run world with ⟨_ | first, between⟩ <;> simp [Except.map]

theorem run_look_eq_ok {question : Disk → Except Fault α} {world after : World} {value : α} :
    (look question).run world = (.ok value, after) ↔
      question world.disk = .ok value ∧ world = after := by
  rw [run_look, Prod.mk.injEq, mapError_eq_ok]

theorem run_ofFailure_eq_ok {result : Except Failure α} {world after : World} {value : α} :
    (ofFailure result).run world = (.ok value, after) ↔ result = .ok value ∧ world = after := by
  rw [run_ofFailure, Prod.mk.injEq, mapError_eq_ok]

theorem run_ofFault_eq_ok {result : Except Fault α} {world after : World} {value : α} :
    (ofFault result).run world = (.ok value, after) ↔ result = .ok value ∧ world = after := by
  rw [run_ofFault, Prod.mk.injEq, mapError_eq_ok]

theorem run_change_eq_ok {operation : Disk → Except Fault Disk} {world after : World} {value : Unit} :
    (change operation).run world = (.ok value, after) ↔
      ∃ disk, operation world.disk = .ok disk ∧ { world with disk } = after := by
  rw [run_change]
  cases operation world.disk <;> simp

/-- Whatever the result of an action, the world after it stands in a relation to the one before. -/
def Keeps (relation : World → World → Prop) (act : Act α) : Prop :=
  ∀ world, relation world (act.run world).2

/-- A relation that composes along the steps of an action. -/
structure Lasting (relation : World → World → Prop) : Prop where
  refl : ∀ world, relation world world
  trans : ∀ {first second third}, relation first second → relation second third →
    relation first third

variable {relation : World → World → Prop}

theorem Keeps.of_run {act : Act α} (h : act.Keeps relation) {world after : World}
    {result : Except Trouble α} (hrun : act.run world = (result, after)) : relation world after := by
  have hkept := h world
  rw [hrun] at hkept
  exact hkept

theorem Keeps.bind (hrel : Lasting relation) {act : Act α} {next : α → Act β}
    (hact : act.Keeps relation) (hnext : ∀ value, (next value).Keeps relation) :
    (act >>= next).Keeps relation := by
  intro world
  have hfirst := hact world
  rw [run_bind]
  rcases h : act.run world with ⟨_ | value, between⟩ <;> rw [h] at hfirst
  · exact hfirst
  · exact hrel.trans hfirst (hnext value between)

/-- An action that never touches the world. -/
theorem Keeps.of_unchanged (hrel : Lasting relation) {act : Act α}
    (h : ∀ world, (act.run world).2 = world) : act.Keeps relation := by
  intro world
  rw [h world]
  exact hrel.refl world

theorem Keeps.orElse {act : Act α} (hact : act.Keeps relation) (known : Fault → Option Trouble) :
    (act.orElse known).Keeps relation := by
  intro world
  have h := hact world
  rw [run_orElse]
  split <;> rename_i heq <;> rw [heq] at h <;> exact h

theorem Keeps.mapM (hrel : Lasting relation) {f : α → Act β} (hf : ∀ x, (f x).Keeps relation)
    (items : List α) : (items.mapM f).Keeps relation := by
  induction items with
  | nil => exact .of_unchanged hrel fun _ => rfl
  | cons item rest ih =>
      rw [List.mapM_cons]
      exact .bind hrel (hf item) fun _ => .bind hrel ih fun _ => .of_unchanged hrel fun _ => rfl

/-- A value that a list of actions gives is that of one of them. -/
theorem exists_run_of_mem_mapM (hrel : Lasting relation) {f : α → Act β}
    (hf : ∀ item, (f item).Keeps relation) {items : List α} {values : List β} {world after : World}
    (h : (items.mapM f).run world = (.ok values, after)) :
    ∀ value ∈ values, ∃ item ∈ items, ∃ before later, relation world before ∧
      (f item).run before = (.ok value, later) := by
  induction items generalizing world values with
  | nil =>
      cases h
      simp
  | cons item rest ih =>
      rw [List.mapM_cons] at h
      obtain ⟨first, between, hfirst, h⟩ := run_bind_eq_ok.1 h
      obtain ⟨others, _, hothers, h⟩ := run_bind_eq_ok.1 h
      cases h
      intro value hvalue
      rcases List.mem_cons.1 hvalue with rfl | hvalue
      · exact ⟨item, List.mem_cons_self, world, between, hrel.refl world, hfirst⟩
      · obtain ⟨other, hmem, before, later, hbefore, hrun⟩ := ih hothers value hvalue
        have hkept := hf item world
        rw [hfirst] at hkept
        exact ⟨other, List.mem_cons_of_mem _ hmem, before, later, hrel.trans hkept hbefore, hrun⟩

/-- On a disk, whatever else the world holds, an action gives a value and leaves the disk as it
is. -/
def Yields (disk : Disk) (act : Act α) (value : α) : Prop :=
  ∀ world, world.disk = disk → ∃ after, act.run world = (.ok value, after) ∧ after.disk = disk

theorem Yields.pure (disk : Disk) (value : α) : (Pure.pure value : Act α).Yields disk value :=
  fun world hworld => ⟨world, rfl, hworld⟩

theorem Yields.bind {disk : Disk} {act : Act α} {next : α → Act β} {first : α} {value : β}
    (hact : act.Yields disk first) (hnext : (next first).Yields disk value) :
    (act >>= next).Yields disk value := by
  intro world hworld
  obtain ⟨between, hrun, hbetween⟩ := hact world hworld
  rw [run_bind, hrun]
  exact hnext between hbetween

theorem Yields.look {disk : Disk} {question : Disk → Except Fault α} {value : α}
    (h : question disk = .ok value) : (Act.look question).Yields disk value := by
  intro world hworld
  refine ⟨world, ?_, hworld⟩
  rw [run_look, hworld, h]
  rfl

theorem Yields.unique {disk : Disk} {act : Act α} {first second : α} (hfirst : act.Yields disk first)
    (hsecond : act.Yields disk second) : first = second := by
  obtain ⟨_, hrun, -⟩ := hfirst ⟨disk, [], []⟩ rfl
  obtain ⟨_, hrun', -⟩ := hsecond ⟨disk, [], []⟩ rfl
  rw [hrun] at hrun'
  cases hrun'
  rfl

theorem Yields.mapM_nil (disk : Disk) (f : α → Act β) : (([] : List α).mapM f).Yields disk [] :=
  .pure disk []

theorem Yields.mapM_cons {disk : Disk} {f : α → Act β} {item : α} {items : List α} {first : β}
    {rest : List β} (hfirst : (f item).Yields disk first) (hrest : (items.mapM f).Yields disk rest) :
    ((item :: items).mapM f).Yields disk (first :: rest) := by
  rw [List.mapM_cons]
  exact hfirst.bind (hrest.bind (.pure disk _))

/-- The values of a list of actions that all give one on a disk. -/
theorem exists_mapM_yields {disk : Disk} {f : α → Act β} {items : List α}
    (h : ∀ item ∈ items, ∃ value, (f item).Yields disk value) :
    ∃ values, (items.mapM f).Yields disk values ∧
      ∀ value, value ∈ values ↔ ∃ item ∈ items, (f item).Yields disk value := by
  induction items with
  | nil => exact ⟨[], .mapM_nil disk f, by simp⟩
  | cons item items ih =>
      rw [List.forall_mem_cons] at h
      obtain ⟨⟨first, hfirst⟩, hrest⟩ := h
      obtain ⟨values, hvalues, hmem⟩ := ih hrest
      refine ⟨first :: values, hfirst.mapM_cons hvalues, fun value => ?_⟩
      simp only [List.mem_cons, hmem, exists_eq_or_imp]
      refine or_congr_left ⟨?_, fun h => h.unique hfirst⟩
      rintro rfl
      exact hfirst

end ElmSuite.Act
