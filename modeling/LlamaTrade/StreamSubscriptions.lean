import LlamaTrade.TransitionRuns
import Mathlib.Data.Finset.Basic
import Mathlib.Data.List.Nodup

/-!
# Stream subscriptions

The clients of the live streams and what is subscribed upstream for them (`StreamManager` in
`streaming/manager.py` with `StreamBridge` in `streaming/bridge.py` as its callback). A call changes
the members under the manager's lock, then the references under the bridge's lock, then it asks
upstream; between these steps other calls may overtake it. Symbols are in upper case, and upstream
does what it is asked.
-/

namespace LlamaTrade

/-! ## Switches and their events -/

namespace Switches

/-- A switch is turned on only when it is off; it may be turned off at any time. -/
def Follows : Bool → List Bool → Bool → Prop
  | value, [], result => value = result
  | value, event :: events, result => (event = true → value = false) ∧ Follows event events result

theorem follows_append {value result event : Bool} {events : List Bool}
    (h : Follows value events result) (hevent : event = true → result = false) :
    Follows value (events ++ [event]) event := by
  induction events generalizing value with
  | nil =>
    have heq : value = result := h
    exact ⟨fun hon => heq.trans (hevent hon), rfl⟩
  | cons first events ih => exact ⟨h.1, ih h.2⟩

/-- The value after the last event. -/
def last (value : Bool) (events : List Bool) : Bool := events.getLastD value

theorem last_append (value event : Bool) (events : List Bool) :
    last value (events ++ [event]) = event := by
  simp [last]

theorem last_cons (value event : Bool) (events : List Bool) :
    last value (event :: events) = last event events := by
  rw [last, List.getLastD_cons, last]

end Switches

/-! ## The manager and the bridge -/

inductive StreamType where
  | trade | quote | bar
  deriving DecidableEq

/-- A kind of data of a symbol. -/
structure StreamChannel where
  type : StreamType
  symbol : String
  deriving DecidableEq

/-- Where a call waits: for the bridge with what its callback was given, or for upstream. -/
inductive StreamTask where
  | calling (adds : Bool) (channels : List StreamChannel)
  | sending (adds : Bool) (channels : List StreamChannel)

structure StreamWorld where
  /-- `_queues`. -/
  queues : Finset ℕ
  /-- `_trade_subs`, `_quote_subs` and `_bar_subs`. -/
  members : StreamChannel → Finset ℕ
  /-- Their keys. -/
  known : List StreamChannel
  /-- `_trade_refs`, `_quote_refs` and `_bar_refs`. -/
  refs : StreamChannel → ℕ
  upstream : StreamChannel → Bool
  tasks : ℕ → Option StreamTask
  /-- The calls that have changed the members, in this order, and are not yet at the bridge. -/
  waiting : StreamChannel → List (ℕ × Bool)
  /-- The calls that have changed the references, in this order, and are not yet upstream. -/
  leaving : StreamChannel → List (ℕ × Bool)

inductive StreamAction where
  | connect (client : ℕ)
  | subscribe (t client : ℕ) (channels : List StreamChannel)
  | unsubscribe (t client : ℕ) (channels : List StreamChannel)
  | disconnect (t client : ℕ)
  | bridge (t : ℕ)
  | send (t : ℕ)

namespace StreamWorld

def fresh : StreamWorld where
  queues := ∅
  members := fun _ => ∅
  known := []
  refs := fun _ => 0
  upstream := fun _ => false
  tasks := fun _ => none
  waiting := fun _ => []
  leaving := fun _ => []

/-- The loop of `subscribe`: the members, and the channels that had none. -/
def addMembers (client : ℕ) (members : StreamChannel → Finset ℕ) :
    List StreamChannel → (StreamChannel → Finset ℕ) × List StreamChannel
  | [] => (members, [])
  | c :: channels =>
    let rest := addMembers client (Function.update members c (insert client (members c))) channels
    (rest.1, if members c = ∅ then c :: rest.2 else rest.2)

/-- The loop of `unsubscribe`: the members, and the channels that have none left. -/
def removeMembers (client : ℕ) (members : StreamChannel → Finset ℕ) :
    List StreamChannel → (StreamChannel → Finset ℕ) × List StreamChannel
  | [] => (members, [])
  | c :: channels =>
    let rest := removeMembers client (Function.update members c ((members c).erase client)) channels
    (rest.1, if (members c).erase client = ∅ then c :: rest.2 else rest.2)

/-- The loop of `add_subscriptions`: the references, and the channels that had none. -/
def addRefs (refs : StreamChannel → ℕ) :
    List StreamChannel → (StreamChannel → ℕ) × List StreamChannel
  | [] => (refs, [])
  | c :: channels =>
    let rest := addRefs (Function.update refs c (refs c + 1)) channels
    (rest.1, if refs c + 1 = 1 then c :: rest.2 else rest.2)

/-- The loop of `remove_subscriptions`: the references, and the channels that have none left. -/
def removeRefs (refs : StreamChannel → ℕ) :
    List StreamChannel → (StreamChannel → ℕ) × List StreamChannel
  | [] => (refs, [])
  | c :: channels =>
    if 0 < refs c then
      let rest := removeRefs (Function.update refs c (refs c - 1)) channels
      (rest.1, if refs c - 1 = 0 then c :: rest.2 else rest.2)
    else removeRefs refs channels

variable (w : StreamWorld)

/-- A call of the manager releases its lock; the callback is called if there is anything to tell. -/
def emit (t : ℕ) (members : StreamChannel → Finset ℕ) (known : List StreamChannel) (adds : Bool)
    (channels : List StreamChannel) : StreamWorld :=
  { w with
    members := members
    known := known
    tasks := if channels.isEmpty then w.tasks
      else Function.update w.tasks t (some (.calling adds channels))
    waiting := fun c => if c ∈ channels then w.waiting c ++ [(t, adds)] else w.waiting c }

/-- The bridge releases its lock; upstream is asked if there is anything to ask. -/
def pass (t : ℕ) (refs : StreamChannel → ℕ) (adds : Bool) (asked channels : List StreamChannel) :
    StreamWorld :=
  { w with
    refs := refs
    tasks := Function.update w.tasks t (if channels.isEmpty then none else some (.sending adds channels))
    waiting := fun c => if c ∈ asked then (w.waiting c).filter (·.1 ≠ t) else w.waiting c
    leaving := fun c => if c ∈ channels then w.leaving c ++ [(t, adds)] else w.leaving c }

/-- Upstream takes the channels on or off. -/
def settle (t : ℕ) (adds : Bool) (channels : List StreamChannel) : StreamWorld :=
  { w with
    upstream := fun c => if c ∈ channels then adds else w.upstream c
    tasks := Function.update w.tasks t none
    leaving := fun c => if c ∈ channels then (w.leaving c).filter (·.1 ≠ t) else w.leaving c }

def step : StreamAction → Option StreamWorld
  | .connect client => some { w with queues := insert client w.queues }
  | .subscribe t client channels =>
    match w.tasks t with
    | none =>
      let added := addMembers client w.members channels
      some (w.emit t added.1 (w.known ∪ channels) true added.2)
    | some _ => none
  | .unsubscribe t client channels =>
    match w.tasks t with
    | none =>
      let removed := removeMembers client w.members channels
      some (w.emit t removed.1 (w.known ∪ channels) false removed.2)
    | some _ => none
  | .disconnect t client =>
    match w.tasks t with
    | none =>
      some ({ w with queues := w.queues.erase client }.emit t
        (fun c => (w.members c).erase client) w.known false
        (w.known.filter fun c => client ∈ w.members c ∧ (w.members c).erase client = ∅))
    | some _ => none
  | .bridge t =>
    match w.tasks t with
    | some (.calling true channels) =>
      let added := addRefs w.refs channels
      some (w.pass t added.1 true channels added.2)
    | some (.calling false channels) =>
      let removed := removeRefs w.refs channels
      some (w.pass t removed.1 false channels removed.2)
    | _ => none
  | .send t =>
    match w.tasks t with
    | some (.sending adds channels) => some (w.settle t adds channels)
    | _ => none

/-- The call does not overtake another one on a channel that both are about. -/
def InOrder : StreamAction → Prop
  | .bridge t => ∀ adds channels, w.tasks t = some (.calling adds channels) → ∀ c ∈ channels,
      (w.waiting c).head?.map (·.1) = some t
  | .send t => ∀ adds channels, w.tasks t = some (.sending adds channels) → ∀ c ∈ channels,
      (w.leaving c).head?.map (·.1) = some t
  | _ => True

/-! ## The loops -/

section Loops

variable {client : ℕ} {c d : StreamChannel} {channels : List StreamChannel}
  {members : StreamChannel → Finset ℕ} {refs : StreamChannel → ℕ}

theorem addMembers_fst : (addMembers client members channels).1 c =
    if c ∈ channels then insert client (members c) else members c := by
  induction channels generalizing members with
  | nil => rfl
  | cons d channels ih =>
    rw [addMembers, ih]
    obtain rfl | hne := eq_or_ne c d
    · simp
    · simp [hne]

theorem mem_addMembers_snd :
    c ∈ (addMembers client members channels).2 ↔ c ∈ channels ∧ members c = ∅ := by
  induction channels generalizing members with
  | nil => simp [addMembers]
  | cons d channels ih =>
    dsimp only [addMembers]
    obtain rfl | hne := eq_or_ne c d
    · split_ifs with hempty <;> simp [ih, hempty]
    · split_ifs <;> simp [ih, hne]

theorem nodup_addMembers_snd : (addMembers client members channels).2.Nodup := by
  induction channels generalizing members with
  | nil => exact List.nodup_nil
  | cons d channels ih =>
    dsimp only [addMembers]
    split_ifs
    · refine List.nodup_cons.mpr ⟨fun hmem => ?_, ih⟩
      simpa using (mem_addMembers_snd.mp hmem).2
    · exact ih

theorem removeMembers_fst : (removeMembers client members channels).1 c =
    if c ∈ channels then (members c).erase client else members c := by
  induction channels generalizing members with
  | nil => rfl
  | cons d channels ih =>
    rw [removeMembers, ih]
    obtain rfl | hne := eq_or_ne c d
    · simp
    · simp [hne]

theorem mem_removeMembers_snd : c ∈ (removeMembers client members channels).2 ↔
    c ∈ channels ∧ (members c).erase client = ∅ := by
  induction channels generalizing members with
  | nil => simp [removeMembers]
  | cons d channels ih =>
    dsimp only [removeMembers]
    obtain rfl | hne := eq_or_ne c d
    · split_ifs with hempty <;> simp [ih, hempty]
    · split_ifs <;> simp [ih, hne]

theorem addRefs_fst (hnodup : channels.Nodup) :
    (addRefs refs channels).1 c = if c ∈ channels then refs c + 1 else refs c := by
  induction channels generalizing refs with
  | nil => rfl
  | cons d channels ih =>
    obtain ⟨hd, hnodup⟩ := List.nodup_cons.mp hnodup
    rw [addRefs, ih hnodup]
    obtain rfl | hne := eq_or_ne c d
    · simp [hd]
    · simp [hne]

theorem mem_addRefs_snd (hnodup : channels.Nodup) :
    c ∈ (addRefs refs channels).2 ↔ c ∈ channels ∧ refs c = 0 := by
  induction channels generalizing refs with
  | nil => simp [addRefs]
  | cons d channels ih =>
    obtain ⟨hd, hnodup⟩ := List.nodup_cons.mp hnodup
    dsimp only [addRefs]
    obtain rfl | hne := eq_or_ne c d
    · split_ifs with hzero <;> simp_all
    · split_ifs <;> simp [ih hnodup, hne]

/-- With at most one reference the loop leaves none. -/
theorem removeRefs_fst (hle : refs c ≤ 1) :
    (removeRefs refs channels).1 c = if c ∈ channels then 0 else refs c := by
  induction channels generalizing refs with
  | nil => rfl
  | cons d channels ih =>
    have hupdate : Function.update refs d (refs d - 1) c ≤ 1 := by
      rw [Function.update_apply]
      split_ifs with heq
      · rw [← heq]
        omega
      · exact hle
    by_cases hpos : 0 < refs d
    · rw [removeRefs, if_pos hpos]
      dsimp only
      rw [ih hupdate]
      obtain rfl | hne := eq_or_ne c d
      · simp only [List.mem_cons_self, if_true, Function.update_self]
        split_ifs <;> omega
      · simp [hne]
    · rw [removeRefs, if_neg hpos, ih hle]
      obtain rfl | hne := eq_or_ne c d
      · simp only [List.mem_cons_self, if_true]
        split_ifs <;> omega
      · simp [hne]

theorem mem_removeRefs_snd (hle : refs c ≤ 1) :
    c ∈ (removeRefs refs channels).2 ↔ c ∈ channels ∧ refs c = 1 := by
  induction channels generalizing refs with
  | nil => simp [removeRefs]
  | cons d channels ih =>
    by_cases hpos : 0 < refs d
    · rw [removeRefs, if_pos hpos]
      dsimp only
      obtain rfl | hne := eq_or_ne c d
      · have hone : refs c = 1 := by omega
        simp [hone]
      · have hkept := @ih (Function.update refs d (refs d - 1)) (by simpa [hne] using hle)
        split_ifs <;> simp [hkept, hne]
    · rw [removeRefs, if_neg hpos, ih hle]
      obtain rfl | hne := eq_or_ne c d
      · simp only [List.mem_cons_self, true_and]
        omega
      · simp [hne]

end Loops

/-! ## Queues of calls -/

section Queues

/-- Every entry of the queues is a call that waits there, and waits once. -/
def Tagged (kind : Bool → List StreamChannel → StreamTask) (tasks : ℕ → Option StreamTask)
    (queue : StreamChannel → List (ℕ × Bool)) : Prop :=
  ∀ c, ((queue c).map (·.1)).Nodup ∧
    ∀ entry ∈ queue c, ∃ channels, tasks entry.1 = some (kind entry.2 channels) ∧ c ∈ channels

variable {kind : Bool → List StreamChannel → StreamTask} {tasks : ℕ → Option StreamTask}
  {queue : StreamChannel → List (ℕ × Bool)} {t : ℕ} {adds : Bool} {channels : List StreamChannel}

/-- A call that does not wait at the queues has no entry there. -/
theorem Tagged.absent (h : Tagged kind tasks queue)
    (hother : ∀ d channels, tasks t ≠ some (kind d channels)) (c : StreamChannel) :
    ∀ entry ∈ queue c, entry.1 ≠ t := by
  rintro entry hentry rfl
  obtain ⟨channels, htask, -⟩ := (h c).2 entry hentry
  exact hother _ _ htask

theorem Tagged.of_absent (h : Tagged kind tasks queue)
    (habsent : ∀ c, ∀ entry ∈ queue c, entry.1 ≠ t) (task : Option StreamTask) :
    Tagged kind (Function.update tasks t task) queue := by
  refine fun c => ⟨(h c).1, fun entry hentry => ?_⟩
  rw [Function.update_of_ne (habsent c entry hentry)]
  exact (h c).2 entry hentry

theorem Tagged.append (h : Tagged kind tasks queue)
    (habsent : ∀ c, ∀ entry ∈ queue c, entry.1 ≠ t) :
    Tagged kind (Function.update tasks t (some (kind adds channels)))
      (fun c => if c ∈ channels then queue c ++ [(t, adds)] else queue c) := by
  intro c
  have hkept := h.of_absent habsent (some (kind adds channels)) c
  dsimp only
  split_ifs with hc
  · refine ⟨?_, fun entry hentry => ?_⟩
    · rw [List.map_append, List.nodup_append]
      refine ⟨hkept.1, by simp, ?_⟩
      rintro a ha b hb rfl
      obtain ⟨entry, hentry, heq⟩ := List.mem_map.mp ha
      exact habsent c entry hentry (heq.trans (by simpa using hb))
    · obtain hentry | hentry := List.mem_append.mp hentry
      · exact hkept.2 entry hentry
      · rw [List.mem_singleton.mp hentry]
        exact ⟨channels, Function.update_self .., hc⟩
  · exact hkept

theorem Tagged.filter (hinj : ∀ d d' l l', kind d l = kind d' l' → d = d' ∧ l = l')
    (h : Tagged kind tasks queue) (htask : tasks t = some (kind adds channels))
    (task : Option StreamTask) :
    Tagged kind (Function.update tasks t task)
      (fun c => if c ∈ channels then (queue c).filter (·.1 ≠ t) else queue c) := by
  have hlisted : ∀ c, ∀ entry ∈ queue c, entry.1 = t → c ∈ channels := by
    rintro c entry hentry rfl
    obtain ⟨listed, hlisted, hc⟩ := (h c).2 entry hentry
    rw [htask, Option.some.injEq] at hlisted
    exact (hinj _ _ _ _ hlisted).2 ▸ hc
  intro c
  dsimp only
  split_ifs with hc
  · refine ⟨((List.filter_sublist).map _).nodup (h c).1, fun entry hentry => ?_⟩
    obtain ⟨hentry, hne⟩ := List.mem_filter.mp hentry
    rw [Function.update_of_ne (of_decide_eq_true hne)]
    exact (h c).2 entry hentry
  · refine ⟨(h c).1, fun entry hentry => ?_⟩
    rw [Function.update_of_ne fun heq => hc (hlisted c entry hentry heq)]
    exact (h c).2 entry hentry

/-- The call at the head of a queue leaves the rest of it. -/
theorem Tagged.head (hinj : ∀ d d' l l', kind d l = kind d' l' → d = d' ∧ l = l')
    (h : Tagged kind tasks queue) (htask : tasks t = some (kind adds channels)) {c : StreamChannel}
    (hhead : (queue c).head?.map (·.1) = some t) :
    ∃ rest, queue c = (t, adds) :: rest ∧ (queue c).filter (·.1 ≠ t) = rest := by
  obtain ⟨hnodup, hentries⟩ := h c
  cases hqueue : queue c with
  | nil => simp [hqueue] at hhead
  | cons first rest =>
    obtain rfl : first.1 = t := by simpa [hqueue] using hhead
    rw [hqueue] at hnodup hentries
    obtain ⟨listed, hlisted, -⟩ := hentries first (by simp)
    rw [htask, Option.some.injEq] at hlisted
    have hadds : adds = first.2 := (hinj _ _ _ _ hlisted).1
    have hrest : ∀ entry ∈ rest, decide (entry.1 ≠ first.1) = true := by
      intro entry hentry
      refine decide_eq_true fun heq => (List.nodup_cons.mp hnodup).1 ?_
      exact List.mem_map.mpr ⟨entry, hentry, heq⟩
    refine ⟨rest, by rw [hadds], ?_⟩
    rw [List.filter_cons_of_neg (by simp), List.filter_eq_self.mpr hrest]

end Queues

/-! ## Runs in order -/

/-- The references follow the members through the calls on their way to the bridge, and upstream
follows the references through the calls on their way there. -/
def Linked (members : Finset ℕ) (refs : ℕ) (upstream : Bool) (waiting leaving : List (ℕ × Bool)) :
    Prop :=
  ∃ asked : Bool, refs = asked.toNat ∧
    Switches.Follows asked (waiting.map (·.2)) (decide (members ≠ ∅)) ∧
    Switches.last upstream (leaving.map (·.2)) = asked

structure Tracked : Prop where
  known : ∀ c, w.members c ≠ ∅ → c ∈ w.known
  waiting : Tagged .calling w.tasks w.waiting
  leaving : Tagged .sending w.tasks w.leaving
  /-- A channel is added once by a call. -/
  once : ∀ t channels, w.tasks t = some (.calling true channels) → channels.Nodup
  linked : ∀ c, Linked (w.members c) (w.refs c) (w.upstream c) (w.waiting c) (w.leaving c)

variable {w}

theorem tracked_fresh : fresh.Tracked where
  known c h := absurd rfl h
  waiting c := ⟨List.nodup_nil, by simp [fresh]⟩
  leaving c := ⟨List.nodup_nil, by simp [fresh]⟩
  once t channels h := by cases h
  linked c := ⟨false, rfl, rfl, rfl⟩

variable {t : ℕ} {adds : Bool} {channels : List StreamChannel}

theorem Tracked.emit {members : StreamChannel → Finset ℕ} {known : List StreamChannel}
    (h : w.Tracked) (hfree : w.tasks t = none) (hknown : ∀ c, members c ≠ ∅ → c ∈ known)
    (hnodup : adds = true → channels.Nodup)
    (hbefore : ∀ c ∈ channels, adds = true → w.members c = ∅)
    (hafter : ∀ c ∈ channels, decide (members c ≠ ∅) = adds)
    (hkept : ∀ c ∉ channels, (members c ≠ ∅ ↔ w.members c ≠ ∅)) :
    (w.emit t members known adds channels).Tracked := by
  have hwaiting := h.waiting.absent (t := t) (by simp [hfree])
  have hleaving := h.leaving.absent (t := t) (by simp [hfree])
  have hlinked : ∀ c, Linked (members c) (w.refs c) (w.upstream c)
      (if c ∈ channels then w.waiting c ++ [(t, adds)] else w.waiting c) (w.leaving c) := by
    intro c
    obtain ⟨asked, hrefs, hfollows, hlast⟩ := h.linked c
    refine ⟨asked, hrefs, ?_, hlast⟩
    split_ifs with hc
    · rw [List.map_append, hafter c hc]
      exact Switches.follows_append hfollows fun hon => by simp [hbefore c hc hon]
    · rw [decide_eq_decide.mpr (hkept c hc)]
      exact hfollows
  cases hchannels : channels with
  | nil =>
    subst hchannels
    exact ⟨hknown, by simpa [StreamWorld.emit] using h.waiting, h.leaving, h.once, hlinked⟩
  | cons first rest =>
    rw [← hchannels]
    have htasks : (w.emit t members known adds channels).tasks =
        Function.update w.tasks t (some (.calling adds channels)) := by
      simp [StreamWorld.emit, hchannels]
    refine ⟨hknown, htasks ▸ h.waiting.append hwaiting, htasks ▸ h.leaving.of_absent hleaving _,
      fun t' listed htask => ?_, hlinked⟩
    rw [htasks, Function.update_apply] at htask
    split_ifs at htask with heq
    · injection htask with htask
      injection htask with hadds hlisted
      exact hlisted ▸ hnodup hadds
    · exact h.once t' listed htask

/-- The bridge serves the call that changed the members first on every channel it is about. -/
theorem Tracked.pass {refs : StreamChannel → ℕ} {asked : List StreamChannel} (h : w.Tracked)
    (htask : w.tasks t = some (.calling adds asked))
    (horder : ∀ c ∈ asked, (w.waiting c).head?.map (·.1) = some t)
    (hsub : ∀ c ∈ channels, c ∈ asked)
    (hrefs : ∀ c ∈ asked, (adds = true → w.refs c = 0) → w.refs c ≤ 1 →
      refs c = adds.toNat ∧ (c ∈ channels ↔ w.refs c ≠ adds.toNat))
    (hkept : ∀ c ∉ asked, refs c = w.refs c) : (w.pass t refs adds asked channels).Tracked := by
  have hinj : ∀ d d' l l', StreamTask.calling d l = .calling d' l' → d = d' ∧ l = l' := by
    rintro d d' l l' heq
    injection heq with hd hl
    exact ⟨hd, hl⟩
  have hleaving := h.leaving.absent (t := t) (by simp [htask])
  refine ⟨h.known, h.waiting.filter hinj htask _, ?_, fun t' listed htask' => ?_, fun c => ?_⟩
  · cases channels with
    | nil => simpa [StreamWorld.pass] using h.leaving.of_absent hleaving none
    | cons first rest => exact h.leaving.append hleaving
  · dsimp only [StreamWorld.pass] at htask'
    rw [Function.update_apply] at htask'
    split_ifs at htask' with heq hempty
    · cases htask'
    · exact h.once t' listed htask'
  · obtain ⟨value, hvalue, hfollows, hlast⟩ := h.linked c
    dsimp only [StreamWorld.pass]
    by_cases hc : c ∈ asked
    · obtain ⟨rest, hqueue, hfilter⟩ := h.waiting.head hinj htask (horder c hc)
      rw [hqueue] at hfollows
      obtain ⟨hon, hfollows⟩ := hfollows
      obtain ⟨hnow, hchannel⟩ := hrefs c hc (fun hadds => by rw [hvalue, hon hadds]; rfl)
        (by rw [hvalue]; exact Bool.toNat_le value)
      rw [if_pos hc, hfilter]
      refine ⟨adds, hnow, hfollows, ?_⟩
      by_cases hsent : c ∈ channels
      · rw [if_pos hsent, List.map_append]
        exact Switches.last_append _ _ _
      · rw [if_neg hsent, hlast]
        have hsame : w.refs c = adds.toNat := not_not.mp fun hne => hsent (hchannel.mpr hne)
        have htoNat : value.toNat = adds.toNat := hvalue.symm.trans hsame
        revert htoNat
        cases value <;> cases adds <;> decide
    · rw [if_neg hc, if_neg fun hsent => hc (hsub c hsent), hkept c hc]
      exact ⟨value, hvalue, hfollows, hlast⟩

/-- Upstream serves the call that changed the references first on every channel it is about. -/
theorem Tracked.settle (h : w.Tracked) (htask : w.tasks t = some (.sending adds channels))
    (horder : ∀ c ∈ channels, (w.leaving c).head?.map (·.1) = some t) :
    (w.settle t adds channels).Tracked := by
  have hinj : ∀ d d' l l', StreamTask.sending d l = .sending d' l' → d = d' ∧ l = l' := by
    rintro d d' l l' heq
    injection heq with hd hl
    exact ⟨hd, hl⟩
  have hwaiting := h.waiting.absent (t := t) (by simp [htask])
  refine ⟨h.known, h.waiting.of_absent hwaiting _, h.leaving.filter hinj htask _,
    fun t' listed htask' => ?_, fun c => ?_⟩
  · dsimp only [StreamWorld.settle] at htask'
    rw [Function.update_apply] at htask'
    split_ifs at htask' with heq
    exact h.once t' listed htask'
  · obtain ⟨value, hvalue, hfollows, hlast⟩ := h.linked c
    refine ⟨value, hvalue, hfollows, ?_⟩
    dsimp only [StreamWorld.settle]
    by_cases hc : c ∈ channels
    · obtain ⟨rest, hqueue, hfilter⟩ := h.leaving.head hinj htask (horder c hc)
      rw [hqueue, List.map_cons, Switches.last_cons] at hlast
      rw [if_pos hc, if_pos hc, hfilter]
      exact hlast
    · rw [if_neg hc, if_neg hc]
      exact hlast

/-- One step of a call that does not overtake another one. -/
theorem Tracked.step {w' : StreamWorld} {action : StreamAction} (h : w.Tracked)
    (horder : w.InOrder action) (hstep : w.step action = some w') : w'.Tracked := by
  cases action with
  | connect client =>
    cases hstep
    exact ⟨h.known, h.waiting, h.leaving, h.once, h.linked⟩
  | subscribe t client channels =>
    cases htask : w.tasks t with
    | some task => simp [StreamWorld.step, htask] at hstep
    | none =>
      simp only [StreamWorld.step, htask, Option.some.injEq] at hstep
      subst hstep
      refine h.emit htask (fun c hc => ?_) (fun _ => nodup_addMembers_snd)
        (fun c hc _ => (mem_addMembers_snd.mp hc).2) (fun c hc => ?_) fun c hc => ?_
      · rw [addMembers_fst] at hc
        split_ifs at hc with hmem
        · exact List.mem_union_right _ hmem
        · exact List.mem_union_left (h.known c hc) _
      · rw [addMembers_fst, if_pos (mem_addMembers_snd.mp hc).1]
        simp
      · rw [addMembers_fst]
        split_ifs with hmem
        · have hsome : w.members c ≠ ∅ := fun hempty => hc (mem_addMembers_snd.mpr ⟨hmem, hempty⟩)
          simp [hsome]
        · rfl
  | unsubscribe t client channels =>
    cases htask : w.tasks t with
    | some task => simp [StreamWorld.step, htask] at hstep
    | none =>
      simp only [StreamWorld.step, htask, Option.some.injEq] at hstep
      subst hstep
      refine h.emit htask (fun c hc => ?_) (by simp) (by simp) (fun c hc => ?_) fun c hc => ?_
      · rw [removeMembers_fst] at hc
        split_ifs at hc with hmem
        · exact List.mem_union_right _ hmem
        · exact List.mem_union_left (h.known c hc) _
      · obtain ⟨hmem, hempty⟩ := mem_removeMembers_snd.mp hc
        rw [removeMembers_fst, if_pos hmem, hempty]
        rfl
      · rw [removeMembers_fst]
        split_ifs with hmem
        · have hsome : (w.members c).erase client ≠ ∅ :=
            fun hempty => hc (mem_removeMembers_snd.mpr ⟨hmem, hempty⟩)
          exact iff_of_true hsome fun hempty => hsome (by rw [hempty]; rfl)
        · rfl
  | disconnect t client =>
    cases htask : w.tasks t with
    | some task => simp [StreamWorld.step, htask] at hstep
    | none =>
      simp only [StreamWorld.step, htask, Option.some.injEq] at hstep
      subst hstep
      have hqueues : StreamWorld.Tracked { w with queues := w.queues.erase client } :=
        ⟨h.known, h.waiting, h.leaving, h.once, h.linked⟩
      have herase : ∀ c, (w.members c).erase client ≠ ∅ → w.members c ≠ ∅ :=
        fun c hsome hempty => hsome (by rw [hempty]; rfl)
      refine hqueues.emit htask (fun c hc => h.known c (herase c hc)) (by simp) (by simp)
        (fun c hc => ?_) fun c hc => ⟨herase c, fun hsome hempty => hc ?_⟩
      · have hempty := (of_decide_eq_true (List.mem_filter.mp hc).2).2
        rw [hempty]
        rfl
      · refine List.mem_filter.mpr ⟨h.known c hsome, decide_eq_true ⟨?_, hempty⟩⟩
        by_contra hmem
        exact hsome (Finset.erase_eq_of_notMem hmem ▸ hempty)
  | bridge t =>
    cases htask : w.tasks t with
    | none => simp [StreamWorld.step, htask] at hstep
    | some task =>
      cases task with
      | sending adds channels => simp [StreamWorld.step, htask] at hstep
      | calling adds channels =>
        cases adds with
        | true =>
          simp only [StreamWorld.step, htask, Option.some.injEq] at hstep
          subst hstep
          have hnodup := h.once t channels htask
          refine h.pass htask (horder true channels htask) (fun c hc => ((mem_addRefs_snd hnodup).mp hc).1)
            (fun c hc hzero _ => ?_) fun c hc => by rw [addRefs_fst hnodup, if_neg hc]
          rw [addRefs_fst hnodup, if_pos hc, mem_addRefs_snd hnodup, hzero rfl]
          exact ⟨rfl, by simp [hc]⟩
        | false =>
          simp only [StreamWorld.step, htask, Option.some.injEq] at hstep
          subst hstep
          have hle : ∀ c, w.refs c ≤ 1 := by
            intro c
            obtain ⟨value, hvalue, -⟩ := h.linked c
            exact hvalue ▸ Bool.toNat_le value
          refine h.pass htask (horder false channels htask)
            (fun c hc => ((mem_removeRefs_snd (hle c)).mp hc).1)
            (fun c hc _ _ => ?_) fun c hc => by rw [removeRefs_fst (hle c), if_neg hc]
          rw [removeRefs_fst (hle c), if_pos hc, mem_removeRefs_snd (hle c)]
          have hone := hle c
          refine ⟨rfl, ?_⟩
          simp only [hc, true_and, Bool.toNat_false]
          omega
  | send t =>
    cases htask : w.tasks t with
    | none => simp [StreamWorld.step, htask] at hstep
    | some task =>
      cases task with
      | calling adds channels => simp [StreamWorld.step, htask] at hstep
      | sending adds channels =>
        simp only [StreamWorld.step, htask, Option.some.injEq] at hstep
        subst hstep
        exact h.settle htask (horder adds channels htask)

theorem Tracked.matches (h : w.Tracked) (hdone : ∀ t, w.tasks t = none) (c : StreamChannel) :
    w.upstream c = true ↔ w.members c ≠ ∅ := by
  have hwaiting : w.waiting c = [] := List.eq_nil_iff_forall_not_mem.mpr fun entry hentry =>
    h.waiting.absent (t := entry.1) (by simp [hdone]) c entry hentry rfl
  have hleaving : w.leaving c = [] := List.eq_nil_iff_forall_not_mem.mpr fun entry hentry =>
    h.leaving.absent (t := entry.1) (by simp [hdone]) c entry hentry rfl
  obtain ⟨value, -, hfollows, hlast⟩ := h.linked c
  rw [hwaiting] at hfollows
  rw [hleaving] at hlast
  have hvalue : w.upstream c = decide (w.members c ≠ ∅) := hlast.trans hfollows
  rw [hvalue, decide_eq_true_eq]

/-- Where no call overtakes another one about the same channel, exactly the channels of the clients
are subscribed upstream whenever no call is under way. -/
theorem upstream_iff {actions : List StreamAction}
    (horder : Transition.Meets StreamWorld.step InOrder fresh actions)
    (hrun : Transition.run StreamWorld.step fresh actions = some w)
    (hdone : ∀ t, w.tasks t = none) (c : StreamChannel) :
    w.upstream c = true ↔ w.members c ≠ ∅ :=
  (Transition.run_invariant (I := Tracked) (fun _ _ _ h hok hstep => h.step hok hstep)
    tracked_fresh horder hrun).matches hdone c

theorem InOrder.bridge (htask : w.tasks t = some (.calling adds channels))
    (hhead : ∀ c ∈ channels, (w.waiting c).head?.map (·.1) = some t) : w.InOrder (.bridge t) := by
  intro adds' channels' htask' c hc
  cases htask.symm.trans htask'
  exact hhead c hc

theorem InOrder.send (htask : w.tasks t = some (.sending adds channels))
    (hhead : ∀ c ∈ channels, (w.leaving c).head?.map (·.1) = some t) : w.InOrder (.send t) := by
  intro adds' channels' htask' c hc
  cases htask.symm.trans htask'
  exact hhead c hc

end StreamWorld

namespace Sample

def barChannel : StreamChannel := ⟨.bar, "AAPL"⟩

/-- One client comes to listen and leaves again while another one comes; the calls take their turns
in order. -/
def orderlyStreams : List StreamAction :=
  [.connect 1, .connect 2, .subscribe 1 1 [barChannel], .bridge 1, .send 1,
    .unsubscribe 2 1 [barChannel], .bridge 2, .subscribe 3 2 [barChannel], .bridge 3, .send 2,
    .send 3]

/-- The same calls, with the second subscription upstream before the first one is given up. -/
def overtakenStreams : List StreamAction :=
  [.connect 1, .connect 2, .subscribe 1 1 [barChannel], .bridge 1, .send 1,
    .unsubscribe 2 1 [barChannel], .bridge 2, .subscribe 3 2 [barChannel], .bridge 3, .send 3,
    .send 2]

end Sample

namespace StreamWorld

open Sample

theorem upstream_iff_orderly : ∃ w, Transition.run StreamWorld.step fresh orderlyStreams = some w ∧
    (w.upstream barChannel = true ↔ w.members barChannel ≠ ∅) := by
  refine ⟨_, rfl, @upstream_iff _ orderlyStreams ?_ rfl (fun t => ?_) barChannel⟩
  · refine Transition.meets_cons rfl trivial (Transition.meets_cons rfl trivial
      (Transition.meets_cons rfl trivial (Transition.meets_cons rfl (.bridge rfl (by decide))
      (Transition.meets_cons rfl (.send rfl (by decide)) (Transition.meets_cons rfl trivial
      (Transition.meets_cons rfl (.bridge rfl (by decide)) (Transition.meets_cons rfl trivial
      (Transition.meets_cons rfl (.bridge rfl (by decide)) (Transition.meets_cons rfl
      (.send rfl (by decide)) (Transition.meets_cons rfl (.send rfl (by decide)) trivial))))))))))
  · rcases t with _ | _ | _ | _ | t <;> rfl

theorem upstream_overtaken : ¬ ∀ (actions : List StreamAction) (w : StreamWorld),
    Transition.run StreamWorld.step fresh actions = some w → (∀ t, w.tasks t = none) →
    ∀ c, w.upstream c = true ↔ w.members c ≠ ∅ := by
  intro hall
  have hover := hall overtakenStreams _ rfl (fun t => ?_) barChannel
  · exact absurd hover (by decide)
  · rcases t with _ | _ | _ | _ | t <;> rfl

end StreamWorld

end LlamaTrade
