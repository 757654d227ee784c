import Mathlib.Data.List.Nodup
import Mathlib.Data.List.Perm.Subperm
import ElmSuite.Proofs.Disk.Canonical
import ElmSuite.Proofs.Disk.Growth

/-!
Where resolutions get.  A resolution follows each link in a resolution of its own, and gives up at a
link that it is following already.  If its way leads somewhere, it never comes to such a link: what is
left to cross gets less with every link that it goes into.  So it ends where the way leads, also if
what is missing on the way is only made later.
-/

namespace ElmSuite

namespace Node

/-- Locations at which there is a link. -/
def HoldLinks (tree : Node) (locations : List (List String)) : Prop :=
  ∀ location ∈ locations, ∃ target, tree.at? location = some (.link target)

/-- Nothing stands below what is no folder. -/
theorem at?_cons_of_entries {node : Node} (h : node.entries = []) (name : String) (rest : List String) :
    node.at? (name :: rest) = none := by
  rw [at?_cons, child?, h]
  rfl

theorem forall_eq_nil_of_entries {tree : Node} {locations : List (List String)}
    (h : tree.entries = []) (hlink : HoldLinks tree locations) :
    ∀ location ∈ locations, location = [] := by
  intro location hmem
  obtain ⟨target, hnode⟩ := hlink location hmem
  cases location with
  | nil => rfl
  | cons name rest =>
      rw [at?_cons_of_entries h] at hnode
      cases hnode

theorem HoldLinks.filter_ne {key : String} {node : Node} {entries : List (String × Node)}
    {locations : List (List String)} (h : HoldLinks (.folder ((key, node) :: entries)) locations) :
    HoldLinks (.folder entries) (locations.filter fun location => location.head? != some key) := by
  intro location hmem
  obtain ⟨hmem, hkey⟩ := List.mem_filter.1 hmem
  obtain ⟨target, hnode⟩ := h location hmem
  refine ⟨target, ?_⟩
  cases location with
  | nil => cases hnode
  | cons name rest =>
      have hne : (name == key) = false := by simpa using hkey
      rw [at?_cons, child?_folder, List.lookup_cons, hne] at hnode
      rw [at?_cons, child?_folder]
      exact hnode

theorem HoldLinks.tails {key : String} {node : Node} {entries : List (String × Node)}
    {locations : List (List String)} (h : HoldLinks (.folder ((key, node) :: entries)) locations) :
    HoldLinks node ((locations.filter fun location => location.head? == some key).map List.tail) := by
  intro location hmem
  obtain ⟨whole, hwhole, rfl⟩ := List.mem_map.1 hmem
  obtain ⟨hmem, hkey⟩ := List.mem_filter.1 hwhole
  obtain ⟨target, hnode⟩ := h whole hmem
  refine ⟨target, ?_⟩
  cases whole with
  | nil => cases hkey
  | cons name rest =>
      rw [List.head?_cons, beq_iff_eq, Option.some.injEq] at hkey
      rw [at?_cons, child?_folder, List.lookup_cons, hkey, beq_self_eq_true] at hnode
      exact hnode

theorem nodup_tails {key : String} {locations : List (List String)} (h : locations.Nodup) :
    ((locations.filter fun location => location.head? == some key).map List.tail).Nodup := by
  refine (h.filter _).map_on fun first hfirst second hsecond heq => ?_
  have hhead := beq_iff_eq.1 (List.mem_filter.1 hfirst).2
  have hhead' := beq_iff_eq.1 (List.mem_filter.1 hsecond).2
  rw [← List.cons_head?_tail hhead, ← List.cons_head?_tail hhead', heq]

mutual

/-- The links of a tree are counted one by one. -/
theorem length_le_linkCount (tree : Node) {locations : List (List String)} (hnodup : locations.Nodup)
    (hlink : HoldLinks tree locations) : locations.length ≤ tree.linkCount := by
  have hnone (hentries : tree.entries = []) (hself : ∀ target, tree ≠ .link target) :
      locations = [] := by
    rw [List.eq_nil_iff_forall_not_mem]
    intro location hmem
    obtain ⟨target, hnode⟩ := hlink location hmem
    rw [forall_eq_nil_of_entries hentries hlink location hmem, at?_nil, Option.some.injEq] at hnode
    exact hself target hnode
  match tree with
  | .file bytes => simp [hnone rfl (by simp)]
  | .sink => simp [hnone rfl (by simp)]
  | .link target =>
      have hsub : locations ⊆ [[]] := fun location hmem =>
        List.mem_singleton.2 (forall_eq_nil_of_entries rfl hlink location hmem)
      simpa [linkCount] using (List.subperm_of_subset hnodup hsub).length_le
  | .folder entries =>
      rw [linkCount]
      exact length_le_linkCountEntries entries hnodup hlink

theorem length_le_linkCountEntries (entries : List (String × Node)) {locations : List (List String)}
    (hnodup : locations.Nodup) (hlink : HoldLinks (.folder entries) locations) :
    locations.length ≤ linkCountEntries entries := by
  match entries with
  | [] =>
      have hempty : locations = [] := by
        rw [List.eq_nil_iff_forall_not_mem]
        intro location hmem
        obtain ⟨target, hnode⟩ := hlink location hmem
        rw [forall_eq_nil_of_entries rfl hlink location hmem] at hnode
        cases hnode
      simp [hempty]
  | (key, node) :: rest =>
      have hfirst := length_le_linkCount node (nodup_tails hnodup) hlink.tails
      have hrest := length_le_linkCountEntries rest (hnodup.filter _) hlink.filter_ne
      have hlength := List.length_eq_length_filter_add (l := locations)
        fun location => location.head? == some key
      rw [List.length_map] at hfirst
      rw [linkCountEntries]
      have hneg : (locations.filter fun location => !(location.head? == some key)) =
          locations.filter fun location => location.head? != some key := rfl
      rw [hneg] at hlength
      omega

end
end Node

namespace Disk

/-- Whether a step stays where it is. -/
def isIdle (step : String) : Bool :=
  step.isEmpty || step == "."

/-- A way from a folder gets to a location and crosses a number of entries before it does, the ones on
the ways of its links included. -/
inductive Crosses (disk : Disk) : Nat → List String → List String → List String → Prop
  | here {folder : List String} : Crosses disk 0 folder [] folder
  | stay {size : Nat} {folder rest goal : List String} {step : String} (hidle : isIdle step = true)
      (hrest : Crosses disk size folder rest goal) : Crosses disk size folder (step :: rest) goal
  | up {size : Nat} {folder rest goal : List String} {step : String} (hup : step = "..")
      (hrest : Crosses disk size folder.dropLast rest goal) :
      Crosses disk (size + 1) folder (step :: rest) goal
  | down {size : Nat} {folder rest goal : List String} {step : String} {node : Node}
      (hidle : isIdle step = false) (hup : step ≠ "..")
      (hnode : disk.nodeAt? (folder ++ [step]) = some node) (hplain : ∀ target, node ≠ .link target)
      (hrest : Crosses disk size (folder ++ [step]) rest goal) :
      Crosses disk (size + 1) folder (step :: rest) goal
  | follow {inner outer : Nat} {folder rest led goal : List String} {step target : String}
      (hidle : isIdle step = false) (hup : step ≠ "..")
      (hlink : disk.nodeAt? (folder ++ [step]) = some (.link target))
      (htarget : Crosses disk inner (if isAbsolute target then [] else folder) (Path.pieces target) led)
      (hrest : Crosses disk outer led rest goal) :
      Crosses disk (inner + outer + 1) folder (step :: rest) goal

variable {disk before after : Disk} {size : Nat} {folder way more goal : List String}

theorem Crosses.unique {first second : Nat} {other : List String}
    (hfirst : Crosses disk first folder way goal) (hsecond : Crosses disk second folder way other) :
    first = second ∧ goal = other := by
  induction hfirst generalizing second other with
  | here =>
      cases hsecond
      exact ⟨rfl, rfl⟩
  | stay hidle _ ih =>
      cases hsecond with
      | stay _ hrest => exact ih hrest
      | up hup _ => exact absurd hidle (by rw [hup]; decide)
      | down hidle' _ _ _ _ => simp [hidle] at hidle'
      | follow hidle' _ _ _ _ => simp [hidle] at hidle'
  | up hup _ ih =>
      cases hsecond with
      | stay hidle _ => exact absurd hidle (by rw [hup]; decide)
      | up _ hrest =>
          obtain ⟨rfl, rfl⟩ := ih hrest
          exact ⟨rfl, rfl⟩
      | down _ hup' _ _ _ => exact absurd hup hup'
      | follow _ hup' _ _ _ => exact absurd hup hup'
  | down hidle hup hnode hplain _ ih =>
      cases hsecond with
      | stay hidle' _ => simp [hidle] at hidle'
      | up hup' _ => exact absurd hup' hup
      | down _ _ _ _ hrest =>
          obtain ⟨rfl, rfl⟩ := ih hrest
          exact ⟨rfl, rfl⟩
      | follow _ _ hlink _ _ =>
          rw [hnode, Option.some.injEq] at hlink
          exact absurd hlink (hplain _)
  | follow hidle hup hlink _ _ ihtarget ihrest =>
      cases hsecond with
      | stay hidle' _ => simp [hidle] at hidle'
      | up hup' _ => exact absurd hup' hup
      | down _ _ hnode hplain _ =>
          rw [hlink, Option.some.injEq] at hnode
          exact absurd hnode.symm (hplain _)
      | follow _ _ hlink' htarget hrest =>
          rw [hlink, Option.some.injEq, Node.link.injEq] at hlink'
          subst hlink'
          obtain ⟨rfl, rfl⟩ := ihtarget htarget
          obtain ⟨rfl, rfl⟩ := ihrest hrest
          exact ⟨rfl, rfl⟩

/-- A way in two parts crosses what the parts cross. -/
theorem Crosses.split (h : Crosses disk size folder (way ++ more) goal) :
    ∃ first second between, Crosses disk first folder way between ∧
      Crosses disk second between more goal := by
  induction way generalizing size folder with
  | nil => exact ⟨0, size, folder, .here, h⟩
  | cons step rest ih =>
      cases h with
      | stay hidle hrest =>
          obtain ⟨first, second, between, hway, hmore⟩ := ih hrest
          exact ⟨first, second, between, .stay hidle hway, hmore⟩
      | up hup hrest =>
          obtain ⟨first, second, between, hway, hmore⟩ := ih hrest
          exact ⟨first + 1, second, between, .up hup hway, hmore⟩
      | down hidle hup hnode hplain hrest =>
          obtain ⟨first, second, between, hway, hmore⟩ := ih hrest
          exact ⟨first + 1, second, between, .down hidle hup hnode hplain hway, hmore⟩
      | follow hidle hup hlink htarget hrest =>
          obtain ⟨first, second, between, hway, hmore⟩ := ih hrest
          exact ⟨_, second, between, .follow hidle hup hlink htarget hway, hmore⟩

/-- Steps that stay can be put in. -/
theorem Crosses.of_filter (h : Crosses disk size folder (way.filter fun step => !isIdle step) goal) :
    Crosses disk size folder way goal := by
  induction way generalizing size folder with
  | nil => exact h
  | cons step rest ih =>
      cases hidle : isIdle step with
      | true =>
          rw [List.filter_cons_of_neg (by simp [hidle])] at h
          exact .stay hidle (ih h)
      | false =>
          rw [List.filter_cons_of_pos (by simp [hidle])] at h
          cases h with
          | stay hidle' _ => simp [hidle] at hidle'
          | up hup hrest => exact .up hup (ih hrest)
          | down _ hup hnode hplain hrest => exact .down hidle hup hnode hplain (ih hrest)
          | follow _ hup hlink htarget hrest => exact .follow hidle hup hlink htarget (ih hrest)

/-- Ways that start without `..` in a location end so. -/
theorem Crosses.noAbove (h : Crosses disk size folder way goal) (hfolder : ".." ∉ folder) :
    ".." ∉ goal := by
  induction h with
  | here => exact hfolder
  | stay _ _ ih => exact ih hfolder
  | up _ _ ih => exact ih fun hmem => hfolder (List.dropLast_subset _ hmem)
  | down _ hup _ _ _ ih =>
      refine ih fun hmem => ?_
      rcases List.mem_append.1 hmem with hmem | hmem
      · exact hfolder hmem
      · exact hup (List.mem_singleton.1 hmem).symm
  | follow _ _ _ _ _ ihtarget ihrest =>
      refine ihrest (ihtarget ?_)
      split
      · exact List.not_mem_nil
      · exact hfolder

theorem filter_steps (text : String) :
    (steps text).filter (fun step => !isIdle step) =
      (Path.pieces text).filter fun step => !isIdle step := by
  have hnamed : ((Path.pieces text).filter fun piece => !piece.isEmpty).filter (fun step => !isIdle step) =
      (Path.pieces text).filter fun step => !isIdle step := by
    rw [List.filter_filter]
    apply List.filter_congr
    intro step _
    cases hempty : step.isEmpty <;> simp [isIdle, hempty]
  unfold steps
  dsimp only
  split
  · rw [List.filter_append, hnamed]
    simp [isIdle]
  · exact hnamed

/-- A way that leads somewhere crosses some number of entries. -/
theorem Leads.exists_crosses (h : Leads disk folder way goal) (hway : "" ∉ way) :
    ∃ size, Crosses disk size folder (way.filter fun step => !isIdle step) goal := by
  induction h with
  | here _ => exact ⟨0, .here⟩
  | stay hdot _ _ ih =>
      rw [List.filter_cons_of_neg (by simp [isIdle, hdot])]
      exact ih fun hmem => hway (List.mem_cons_of_mem _ hmem)
  | up hup _ _ ih =>
      rw [List.filter_cons_of_pos (by rw [hup]; decide)]
      obtain ⟨size, hrest⟩ := ih fun hmem => hway (List.mem_cons_of_mem _ hmem)
      exact ⟨size + 1, .up hup hrest⟩
  | @down _ _ _ step _ hdot hup hnode hplain _ ih =>
      have hidle : isIdle step = false := by
        rw [List.mem_cons, not_or] at hway
        simp [isIdle, hdot, Ne.symm hway.1]
      rw [List.filter_cons_of_pos (by simp [hidle])]
      obtain ⟨size, hrest⟩ := ih fun hmem => hway (List.mem_cons_of_mem _ hmem)
      exact ⟨size + 1, .down hidle hup hnode hplain hrest⟩
  | @follow _ rest _ step target hdot hup hlink _ ih =>
      rw [List.mem_cons, not_or] at hway
      have hidle : isIdle step = false := by simp [isIdle, hdot, Ne.symm hway.1]
      rw [List.filter_cons_of_pos (by simp [hidle])]
      have hsteps : "" ∉ steps target ++ rest := by
        rw [List.mem_append, not_or]
        refine ⟨?_, hway.2⟩
        unfold steps
        dsimp only
        split <;> simp
      obtain ⟨size, hall⟩ := ih hsteps
      rw [List.filter_append, filter_steps] at hall
      obtain ⟨first, second, led, htarget, hrest⟩ := hall.split
      exact ⟨_, .follow hidle hup hlink htarget.of_filter hrest⟩

/-! ### Resolutions -/

/-- The system can look at every link under the path of its location. -/
def LinksInReach (disk : Disk) : Prop :=
  ∀ location target, disk.nodeAt? location = some (.link target) →
    (Path.ofLocation location).toString.utf8ByteSize < pathLimit

/-- A link that is being followed while some number of entries is still to be crossed: its way crosses
at least as many. -/
def Followed (before after : Disk) (size : Nat) (location : List String) : Prop :=
  ∃ folder name target inner led, location = folder ++ [name] ∧
    before.nodeAt? location = some (.link target) ∧ size ≤ inner ∧
    Crosses after inner (if isAbsolute target then [] else folder) (Path.pieces target) led

theorem Followed.mono {fewer : Nat} {location : List String} (h : Followed before after size location)
    (hle : fewer ≤ size) : Followed before after fewer location := by
  obtain ⟨folder, name, target, inner, led, hlocation, hlink, hsize, htarget⟩ := h
  exact ⟨folder, name, target, inner, led, hlocation, hlink, Nat.le_trans hle hsize, htarget⟩

/-- The way of a link that is being followed crosses at least what is still to be crossed. -/
theorem Followed.le {inner : Nat} {name target : String} {led : List String}
    (h : Followed before after size (folder ++ [name]))
    (hlink : before.nodeAt? (folder ++ [name]) = some (.link target))
    (htarget : Crosses after inner (if isAbsolute target then [] else folder) (Path.pieces target) led) :
    size ≤ inner := by
  obtain ⟨folder', name', target', inner', led', hlocation, hlink', hsize, htarget'⟩ := h
  obtain ⟨rfl, -⟩ := List.append_inj' hlocation rfl
  rw [hlink, Option.some.injEq, Node.link.injEq] at hlink'
  subst hlink'
  rwa [(htarget.unique htarget').1]

theorem up_ofLocation (hfolder : ".." ∉ folder) :
    (Waypoint.ofLocation folder).up = .ofLocation folder.dropLast := by
  have hspelling : spellUp (Path.ofLocation folder) = Path.ofLocation folder.dropLast := by
    unfold spellUp
    cases hlast : folder.getLast? with
    | none =>
        rw [List.getLast?_eq_none_iff] at hlast
        simp [Path.ofLocation, hlast]
    | some last =>
        have hne : last ≠ ".." := fun heq => hfolder (heq ▸ List.mem_of_getLast? hlast)
        simp [Path.ofLocation, hlast]
  rw [Waypoint.up]
  exact congrArg (Waypoint.mk _) hspelling

section Growth

variable {spared : List String → Prop} {strict : Bool} {resolution : Resolution}

/-- What a resolution finds below a folder at which a link stands, if it goes on from there. -/
theorem lookBelow_of_link {step target : String} {onLink : Waypoint → Waypoint → String → Except Fault Resolution}
    {rest : List String} (hproper : before.ProperNames) (hreach : strict = false → before.LinksInReach)
    (hlink : before.nodeAt? (folder ++ [step]) = some (.link target))
    (h : before.resolveWith strict onLink (.ofLocation folder) (step :: rest) = .ok resolution) :
    before.lookBelow (.ofLocation folder) step = .ok (.link target) := by
  have hname := hproper _ _ _ hlink
  cases strict with
  | false => exact lookBelow_ofLocation hname (hreach rfl _ _ hlink) hlink
  | true =>
      cases hbelow : before.lookBelow (.ofLocation folder) step with
      | error errno =>
          rw [resolveWith_of_not_found hname hbelow] at h
          cases h
      | ok node =>
          have hnode := nodeAt?_of_lookBelow hbelow
          rw [show (Waypoint.ofLocation folder).location = folder from rfl, hlink, Option.some.injEq] at hnode
          rw [hnode]

section Steps

variable {onLink : Waypoint → Waypoint → String → Except Fault Resolution} {at_ : Waypoint}
  {rest : List String} {step : String}

theorem resolveWith_stay (hidle : isIdle step = true) :
    disk.resolveWith strict onLink at_ (step :: rest) = disk.resolveWith strict onLink at_ rest := by
  rw [resolveWith]
  exact if_pos hidle

theorem resolveWith_up :
    disk.resolveWith strict onLink at_ (".." :: rest) = disk.resolveWith strict onLink at_.up rest := by
  rw [resolveWith, if_neg (by decide), if_pos (by decide)]

/-- How a resolution that ends goes on from a step down. -/
theorem resolveWith_down (hidle : isIdle step = false) (hup : step ≠ "..")
    (h : disk.resolveWith strict onLink at_ (step :: rest) = .ok resolution) :
    (∃ target led, disk.lookBelow at_ step = .ok (.link target) ∧
        onLink at_ (at_.down step) target = .ok (.reached led) ∧
        disk.resolveWith strict onLink led rest = .ok resolution) ∨
      (∃ target spelling whole, disk.lookBelow at_ step = .ok (.link target) ∧
        onLink at_ (at_.down step) target = .ok (.stuck spelling) ∧ resolution = .stuck whole) ∨
      (∀ target, disk.lookBelow at_ step ≠ .ok (.link target)) ∧
        (strict = true → ∃ node, disk.lookBelow at_ step = .ok node) ∧
        disk.resolveWith strict onLink (at_.down step) rest = .ok resolution := by
  have hmove : (step.isEmpty || step == ".") = false := hidle
  rw [resolveWith, hmove, if_neg Bool.false_ne_true, if_neg (by simpa using hup)] at h
  split at h
  · cases h
  · dsimp only at h
    split at h
    · next target hbelow =>
      split at h
      · next led hled => exact .inl ⟨target, led, hbelow, hled, h⟩
      · next spelling hled =>
        cases h
        exact .inr (.inl ⟨target, spelling, _, hbelow, hled, rfl⟩)
      · cases h
    · next node hplain hbelow =>
      refine .inr (.inr ⟨fun target heq => ?_, fun _ => ⟨node, hbelow⟩, h⟩)
      rw [hbelow, Except.ok.injEq] at heq
      exact hplain target heq
    · next errno hbelow =>
      split at h
      · cases h
      · next hlenient =>
        refine .inr (.inr ⟨fun target heq => ?_, fun hstrict => absurd hstrict hlenient, h⟩)
        rw [hbelow] at heq
        cases heq

end Steps

/-- A resolution follows a link by resolving its way, unless it is following the link already. -/
theorem resolveWay_succ (depth : Nat) (open_ : List Path) (at_ : Waypoint) (way : List String) :
    disk.resolveWay strict (depth + 1) open_ at_ way =
      disk.resolveWith strict
        (fun above next target =>
          if open_.contains next.spelling then
            if strict then .error (.linkLoop next.spelling.toString)
            else .ok (.stuck next.spelling.toString)
          else
            disk.resolveWay strict depth (next.spelling :: open_)
              (if isAbsolute target then .ofLocation [] else above) (Path.pieces target))
        at_ way :=
  rfl

/-- The step of a strict resolution: it crosses what is there, if the ways of links are crossed. -/
theorem crosses_of_resolveWith {onLink : Waypoint → Waypoint → String → Except Fault Resolution}
    (hlink : ∀ above next target led, onLink above next target = .ok (.reached led) →
      ∃ size, Crosses disk size (if isAbsolute target then [] else above.location) (Path.pieces target)
        led.location)
    {at_ led : Waypoint} {way : List String}
    (h : disk.resolveWith true onLink at_ way = .ok (.reached led)) :
    ∃ size, Crosses disk size at_.location way led.location := by
  induction way generalizing at_ with
  | nil =>
      cases h
      exact ⟨0, .here⟩
  | cons step rest ih =>
      cases hidle : isIdle step with
      | true =>
          rw [resolveWith_stay hidle] at h
          obtain ⟨size, hrest⟩ := ih h
          exact ⟨size, .stay hidle hrest⟩
      | false =>
          by_cases hup : step = ".."
          · subst hup
            rw [resolveWith_up] at h
            obtain ⟨size, hrest⟩ := ih h
            exact ⟨size + 1, .up rfl hrest⟩
          · rcases resolveWith_down hidle hup h with
              ⟨target, between, hbelow, hled, hrest⟩ | ⟨_, _, _, -, -, hstuck⟩ | ⟨hplain, hnode, hrest⟩
            · obtain ⟨inner, htarget⟩ := hlink _ _ _ _ hled
              obtain ⟨outer, hrest⟩ := ih hrest
              exact ⟨_, .follow hidle hup (nodeAt?_of_lookBelow hbelow) htarget hrest⟩
            · cases hstuck
            · obtain ⟨node, hbelow⟩ := hnode rfl
              obtain ⟨size, hrest⟩ := ih hrest
              exact ⟨size + 1, .down hidle hup (nodeAt?_of_lookBelow hbelow)
                (fun target heq => hplain target (heq ▸ hbelow)) hrest⟩

/-- A strict resolution that ends has crossed its way. -/
theorem crosses_of_resolveWay {depth : Nat} {open_ : List Path} {at_ led : Waypoint} {way : List String}
    (h : disk.resolveWay true depth open_ at_ way = .ok (.reached led)) :
    ∃ size, Crosses disk size at_.location way led.location := by
  induction depth generalizing open_ at_ way led with
  | zero =>
      refine crosses_of_resolveWith ?_ h
      intro above next target between hbetween
      dsimp only at hbetween
      split at hbetween <;> cases hbetween
  | succ depth ih =>
      rw [resolveWay_succ] at h
      refine crosses_of_resolveWith ?_ h
      intro above next target between hbetween
      split at hbetween
      · cases hbetween
      · have htarget := ih hbetween
        rw [apply_ite Waypoint.location] at htarget
        exact htarget

/-- A resolution that ends is where its way leads when the disk has grown. -/
theorem resolveWay_of_crosses (hproper : before.ProperNames)
    (hreach : strict = false → before.LinksInReach) (hgrows : before.Grows spared after)
    (hcrosses : Crosses after size folder way goal) (hfolder : ".." ∉ folder) {depth : Nat}
    {opened : List (List String)} (hnodup : opened.Nodup)
    (hopened : ∀ location ∈ opened, Followed before after size location)
    (hdepth : before.tree.linkCount < depth + opened.length)
    (h : before.resolveWay strict depth (opened.map Path.ofLocation) (.ofLocation folder) way =
      .ok resolution) : resolution = .reached (.ofLocation goal) := by
  induction hcrosses generalizing depth opened resolution with
  | here =>
      obtain ⟨onLink, honLink⟩ := exists_resolveWay_eq before strict depth (opened.map Path.ofLocation)
      rw [honLink, resolveWith] at h
      cases h
      rfl
  | stay hidle _ ih =>
      obtain ⟨onLink, honLink⟩ := exists_resolveWay_eq before strict depth (opened.map Path.ofLocation)
      rw [honLink, resolveWith_stay hidle, ← honLink] at h
      exact ih hfolder hnodup hopened hdepth h
  | up hup _ ih =>
      obtain ⟨onLink, honLink⟩ := exists_resolveWay_eq before strict depth (opened.map Path.ofLocation)
      rw [hup, honLink, resolveWith_up, up_ofLocation hfolder, ← honLink] at h
      exact ih (fun hmem => hfolder (List.dropLast_subset _ hmem)) hnodup
        (fun location hmem => (hopened location hmem).mono (Nat.le_succ _)) hdepth h
  | @down size folder rest goal step node hidle hup hnode hplain _ ih =>
      obtain ⟨onLink, honLink⟩ := exists_resolveWay_eq before strict depth (opened.map Path.ofLocation)
      have hfolder' : ".." ∉ folder ++ [step] := by simpa using ⟨hfolder, Ne.symm hup⟩
      have hnolink (target : String) :
          before.lookBelow (.ofLocation folder) step ≠ .ok (.link target) := fun hbelow => by
        have hlink := hgrows.toRetains.link (nodeAt?_of_lookBelow hbelow)
        rw [show (Waypoint.ofLocation folder).location = folder from rfl, hnode, Option.some.injEq] at hlink
        exact hplain target hlink
      rw [honLink] at h
      rcases resolveWith_down hidle hup h with
        ⟨target, _, hbelow, -⟩ | ⟨target, _, _, hbelow, -⟩ | ⟨-, -, hrest⟩
      · exact absurd hbelow (hnolink target)
      · exact absurd hbelow (hnolink target)
      · rw [← honLink] at hrest
        exact ih hfolder' hnodup (fun location hmem => (hopened location hmem).mono (Nat.le_succ _)) hdepth
          hrest
  | @follow inner outer folder rest led goal step target hidle hup hlink htarget hcrosses ihtarget ihrest =>
      have hbefore := hgrows.links _ _ hlink
      have hfirst : before.lookBelow (.ofLocation folder) step = .ok (.link target) := by
        obtain ⟨onLink, honLink⟩ := exists_resolveWay_eq before strict depth (opened.map Path.ofLocation)
        rw [honLink] at h
        exact lookBelow_of_link hproper hreach hbefore h
      have hfresh : folder ++ [step] ∉ opened := fun hmem => by
        have hle := (hopened _ hmem).le hbefore htarget
        omega
      cases depth with
      | zero =>
          -- There are no more links than are being followed.
          have hle := Node.length_le_linkCount before.tree hnodup fun location hmem => by
            obtain ⟨_, _, target, _, _, -, hlink, -⟩ := hopened location hmem
            exact ⟨target, hlink⟩
          omega
      | succ depth =>
          have hinner {inside : Resolution} (hinside : before.resolveWay strict depth
              (((folder ++ [step]) :: opened).map Path.ofLocation)
              (if isAbsolute target then .ofLocation [] else .ofLocation folder) (Path.pieces target) =
                .ok inside) : inside = .reached (.ofLocation led) := by
            rw [← apply_ite Waypoint.ofLocation] at hinside
            refine ihtarget ?_ (List.nodup_cons.2 ⟨hfresh, hnodup⟩) ?_ ?_ hinside
            · split
              · exact List.not_mem_nil
              · exact hfolder
            · refine List.forall_mem_cons.2 ⟨?_, fun location hmem => (hopened location hmem).mono (by omega)⟩
              exact ⟨folder, step, target, inner, led, rfl, hbefore, Nat.le_refl inner, htarget⟩
            · rw [List.length_cons]
              omega
          have hnotOpen : ¬ (opened.map Path.ofLocation).contains
              ((Waypoint.ofLocation folder).down step).spelling = true := by
            rw [List.contains_iff_mem, List.mem_map]
            rintro ⟨location, hmem, heq⟩
            have hsame : location = folder ++ [step] := Path.ofLocation_inj.1 heq
            exact hfresh (hsame ▸ hmem)
          have hled : ".." ∉ led := by
            refine htarget.noAbove ?_
            split
            · exact List.not_mem_nil
            · exact hfolder
          rw [resolveWay_succ] at h
          rcases resolveWith_down hidle hup h with
            ⟨found, way, hbelow, hway, hrest⟩ | ⟨found, _, _, hbelow, hway, -⟩ | ⟨hnolink, -, -⟩
          · rw [hfirst, Except.ok.injEq, Node.link.injEq] at hbelow
            subst hbelow
            rw [if_neg hnotOpen] at hway
            have heq := hinner hway
            rw [Resolution.reached.injEq] at heq
            subst heq
            exact ihrest hled hnodup (fun location hmem => (hopened location hmem).mono (by omega)) hdepth
              hrest
          · rw [hfirst, Except.ok.injEq, Node.link.injEq] at hbelow
            subst hbelow
            rw [if_neg hnotOpen] at hway
            cases hinner hway
          · exact absurd hfirst (hnolink target)

/-- A resolution from the root that ends is where the parts of its path lead when the disk has grown. -/
theorem resolution_of_leads (hproper : before.ProperNames)
    (hreach : strict = false → before.LinksInReach) (hgrows : before.Grows spared after) {path : Path}
    (hanchor : path.anchor ≠ .here) (hparts : ∀ part ∈ path.parts, Path.IsPart part)
    (hleads : Leads after [] path.parts goal) (h : before.resolution strict path = .ok resolution) :
    resolution = .reached (.ofLocation goal) := by
  obtain ⟨size, hcrosses⟩ := hleads.exists_crosses fun hmem => (hparts "" hmem).nonempty rfl
  unfold Disk.resolution at h
  rw [if_neg hanchor] at h
  refine resolveWay_of_crosses hproper hreach hgrows hcrosses.of_filter List.not_mem_nil List.nodup_nil
    (fun location hmem => absurd hmem List.not_mem_nil) ?_ h
  rw [List.length_nil]
  omega

/-- The canonical path of what exists is the location to which the path leads. -/
theorem locate_of_leads (hproper : disk.ProperNames) {path found : Path} (hanchor : path.anchor ≠ .here)
    (hparts : ∀ part ∈ path.parts, Path.IsPart part) (hleads : Leads disk [] path.parts goal)
    (h : disk.locate path = .ok found) : found = .ofLocation goal := by
  unfold locate at h
  obtain ⟨resolution, hresolution, rfl⟩ := map_eq_ok.1 h
  rw [resolution_of_leads hproper (fun hfalse => by cases hfalse) (.refl (fun _ => False) disk) hanchor
    hparts hleads hresolution]
  rfl

/-- The canonical path of what need not exist yet is the location to which the path leads when it
does. -/
theorem locateLeniently_of_leads (hproper : before.ProperNames) (hreach : before.LinksInReach)
    (hgrows : before.Grows spared after) {path found : Path} (hanchor : path.anchor ≠ .here)
    (hparts : ∀ part ∈ path.parts, Path.IsPart part) (hleads : Leads after [] path.parts goal)
    (h : before.locateLeniently path = .ok found) : found = .ofLocation goal := by
  unfold locateLeniently at h
  obtain ⟨resolution, hresolution, h⟩ := bind_eq_ok.1 h
  rw [resolution_of_leads hproper (fun _ => hreach) hgrows hanchor hparts hleads hresolution] at h
  dsimp only at h
  split at h
  · cases h
  · cases h
  · cases h
    rfl

end Growth

end Disk

end ElmSuite
