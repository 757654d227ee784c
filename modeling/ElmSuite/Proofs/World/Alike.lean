import ElmSuite.Proofs.World.Actions

/-!
One action in two worlds.  It ends alike if it has the same result in both and leaves them related; a
chain of actions ends alike if each of them does in the worlds that the ones before it leave.
-/

namespace ElmSuite.Act

variable {α β : Type}

/-- From two worlds that are related before, an action has the same result and keeps them related; if
it gives a value, they are related as it says afterwards. -/
def Alike (kept before after : World → World → Prop) (act : Act α) : Prop :=
  ∀ first second, before first second → ∃ result first' second',
    act.run first = (result, first') ∧ act.run second = (result, second') ∧ kept first' second' ∧
      ∀ value, result = .ok value → after first' second'

variable {kept before between after : World → World → Prop}

/-- What follows a value only has to go on alike if an action gives that value. -/
theorem Alike.bind_run {act : Act α} {next : α → Act β} (hact : act.Alike kept before between)
    (hnext : ∀ value first second later, before first second → act.run first = (.ok value, later) →
      (next value).Alike kept between after) : (act >>= next).Alike kept before after := by
  intro first second hbefore
  obtain ⟨result, first', second', hfirst, hsecond, hkept, hbetween⟩ := hact first second hbefore
  rw [run_bind, run_bind, hfirst, hsecond]
  cases result with
  | error trouble => exact ⟨.error trouble, first', second', rfl, rfl, hkept, fun _ heq => by cases heq⟩
  | ok value => exact hnext value first second first' hbefore hfirst first' second' (hbetween value rfl)

theorem Alike.bind {act : Act α} {next : α → Act β} (hact : act.Alike kept before between)
    (hnext : ∀ value, (next value).Alike kept between after) : (act >>= next).Alike kept before after :=
  hact.bind_run fun value _ _ _ _ _ => hnext value

theorem Alike.mono {act : Act α} {before' after' : World → World → Prop}
    (h : act.Alike kept before after) (hbefore : ∀ first second, before' first second → before first second)
    (hafter : ∀ first second, after first second → after' first second) :
    act.Alike kept before' after' := by
  intro first second hin
  obtain ⟨result, first', second', hfirst, hsecond, hkept, hvalue⟩ :=
    h first second (hbefore first second hin)
  exact ⟨result, first', second', hfirst, hsecond, hkept, fun value heq =>
    hafter _ _ (hvalue value heq)⟩

/-- An action that leaves the world as it is and has the same result in related worlds. -/
theorem Alike.still {act : Act α} (hstill : ∀ world, (act.run world).2 = world)
    (hkept : ∀ first second, before first second → kept first second)
    (hsame : ∀ first second, before first second → (act.run first).1 = (act.run second).1) :
    act.Alike kept before before := by
  intro first second hbefore
  exact ⟨_, first, second, Prod.ext rfl (hstill first),
    Prod.ext (hsame first second hbefore).symm (hstill second), hkept first second hbefore,
    fun _ _ => hbefore⟩

theorem Alike.trouble (hkept : ∀ first second, before first second → kept first second) (trouble : Trouble) :
    (ofTrouble (.error trouble) : Act α).Alike kept before after := by
  intro first second hbefore
  exact ⟨.error trouble, first, second, rfl, rfl, hkept first second hbefore, fun _ heq => by cases heq⟩

/-- An action that knows nothing of the world. -/
theorem Alike.result (hkept : ∀ first second, before first second → kept first second)
    (result : Except Trouble α) : (ofTrouble result).Alike kept before before :=
  .still (fun _ => rfl) hkept fun _ _ _ => rfl

theorem Alike.pure (hkept : ∀ first second, before first second → kept first second) (value : α) :
    (Pure.pure value : Act α).Alike kept before before :=
  .still (fun _ => rfl) hkept fun _ _ _ => rfl

theorem Alike.look {question : Disk → Except Fault α}
    (hkept : ∀ first second, before first second → kept first second)
    (hsame : ∀ first second, before first second → question first.disk = question second.disk) :
    (Act.look question).Alike kept before before :=
  .still (fun _ => rfl) hkept fun first second hbefore => by
    rw [run_look, run_look, hsame first second hbefore]

/-- An action that goes on alike, as far as it depends on the disk. -/
theorem Alike.disk {next : Disk → Act β}
    (hnext : ∀ first second, before first second →
      next first.disk = next second.disk ∧ (next first.disk).Alike kept before after) :
    (Act.disk >>= next).Alike kept before after := by
  intro first second hbefore
  obtain ⟨hsame, halike⟩ := hnext first second hbefore
  obtain ⟨result, first', second', hfirst, hsecond, hrest⟩ := halike first second hbefore
  refine ⟨result, first', second', ?_, ?_, hrest⟩
  · rw [run_bind, run_disk]
    exact hfirst
  · rw [run_bind, run_disk]
    dsimp only
    rw [← hsame]
    exact hsecond

theorem Alike.say (hkept : ∀ first second, before first second → kept first second) {line : Line}
    (hline : ∀ first second, before first second →
      before { first with lines := first.lines ++ [line] } { second with lines := second.lines ++ [line] }) :
    (Act.say line).Alike kept before before := by
  intro first second hbefore
  have hafter := hline first second hbefore
  exact ⟨.ok (), _, _, rfl, rfl, hkept _ _ hafter, fun _ _ => hafter⟩

theorem Alike.map {act : Act α} (hact : act.Alike kept before after) (f : α → β) :
    (f <$> act).Alike kept before after := by
  intro first second hbefore
  obtain ⟨result, first', second', hfirst, hsecond, hkept, hafter⟩ := hact first second hbefore
  rw [run_map, run_map, hfirst, hsecond]
  refine ⟨_, _, _, rfl, rfl, hkept, fun value hvalue => ?_⟩
  obtain ⟨first, hresult, -⟩ := map_eq_ok.1 hvalue
  exact hafter first hresult

theorem Alike.orElse {act : Act α} (h : act.Alike kept before after) (known : Fault → Option Trouble) :
    (act.orElse known).Alike kept before after := by
  intro first second hbefore
  obtain ⟨result, first', second', hfirst, hsecond, hkept, hafter⟩ := h first second hbefore
  rw [run_orElse, run_orElse, hfirst, hsecond]
  rcases result with (cause | fault) | value
  · exact ⟨_, _, _, rfl, rfl, hkept, fun _ heq => by cases heq⟩
  · exact ⟨_, _, _, rfl, rfl, hkept, fun _ heq => by cases heq⟩
  · exact ⟨_, _, _, rfl, rfl, hkept, fun _ _ => hafter value rfl⟩

/-- A list of actions that each leave the relation as it is. -/
theorem Alike.mapM {f : α → Act β} {items : List α}
    (hkept : ∀ first second, before first second → kept first second)
    (hf : ∀ item ∈ items, (f item).Alike kept before before) :
    (items.mapM f).Alike kept before before := by
  induction items with
  | nil => exact .pure hkept []
  | cons item rest ih =>
      rw [List.forall_mem_cons] at hf
      rw [List.mapM_cons]
      exact .bind hf.1 fun _ => .bind (ih hf.2) fun _ => .pure hkept _

end ElmSuite.Act
