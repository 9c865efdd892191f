import LlamaTrade.SessionLeases

/-!
# Running sessions

A replica that runs a session holds its lease, and so no other replica runs it, as long as no two
tasks of a replica work on one session at a time, and no session is stopped or claimed again while
its runner gets ready.
-/

namespace LlamaTrade

section Steps

variable {ids : Identities} {w w' : SessionWorld} {t : TaskId}

theorem StartCaller.Sound.named {caller : StartCaller} (h : caller.Sound ids) {x : UUID}
    (hx : x ∈ caller.held) : w.Named ids x := by
  cases caller with
  | request => cases hx
  | adoption executionId rest =>
    rw [List.mem_singleton.mp hx]
    exact .inl h.1

theorem RunnerUse.Sound.named {use : RunnerUse} (h : use.Sound ids w) {x : UUID}
    (hx : x ∈ use.held) : w.Named ids x := by
  cases use with
  | start caller => exact StartCaller.Sound.named h hx
  | rehydrate rest => cases hx

theorem ClaimUse.Sound.named {use : ClaimUse} {replica : ℕ} {id : UUID}
    (h : use.Sound ids w replica id) {x : UUID} (hx : x ∈ id :: use.held) : w.Named ids x := by
  obtain rfl | hx := List.mem_cons.mp hx
  · cases use with
    | runner use => exact h.2.1.named
    | adopt spec rest => exact .inl h.2.1
    | adopted executionId rest => exact h.1.named
  · cases use with
    | runner use => exact h.2.2.named hx
    | adopt spec rest => cases hx
    | adopted executionId rest =>
      rw [List.mem_singleton.mp hx]
      exact .inl h.2.1

theorem ReleaseUse.Sound.named {use : ReleaseUse} {id : UUID} (h : use.Sound ids w id) {x : UUID}
    (hx : x ∈ id :: use.held) : w.Named ids x := by
  obtain rfl | hx := List.mem_cons.mp hx
  · cases use with
    | startFailed caller => exact h.1.named
    | stop loaded => exact SessionWorld.Known.named h
    | drop rest specs => exact h.1
    | rehydrateFailed rest => exact h.1.named
    | adoptionEnds rest => exact .inl h.1
  · cases use with
    | startFailed caller => exact h.2.named hx
    | stop | drop | rehydrateFailed | adoptionEnds => cases hx

theorem StopUse.Sound.named {use : StopUse} {id : UUID} (h : use.Sound ids w id) :
    w.Named ids id := by
  cases use with
  | stop loaded => exact SessionWorld.Known.named h
  | drop rest specs => exact h.1
  | evict rest => exact h.1.named
  | sweep rest => exact h.1

/-- Tasks work on executions and on sessions only. -/
theorem LeasesSound.works_named (h : LeasesSound ids w none) {x : UUID}
    (hx : x ∈ (w.tasks t).works) : w.Named ids x := by
  have hphase := h.phases t nofun
  generalize w.tasks t = phase at hx hphase
  cases phase with
  | resolving | checking | inserting | failing => exact StartCaller.Sound.named hphase hx
  | probing id conn use => exact hphase.2.named hx
  | opening id use | locking id conn use => exact ClaimUse.Sound.named hphase hx
  | preparing id use =>
    obtain rfl | hx := List.mem_cons.mp hx
    · exact hphase.2.2.1.named
    · exact hphase.2.2.2.named hx
  | stopping id use | cancelling id runner use =>
    rw [List.mem_singleton.mp hx]
    exact hphase.2.named
  | unlocking id conn use => exact ReleaseUse.Sound.named hphase hx
  | sweepProbing id conn rest =>
    rw [List.mem_singleton.mp hx]
    exact h.leased (Option.isSome_iff_exists.mpr ⟨conn, hphase.1⟩)
  | discarding => exact hphase.elim
  | idle | sweeping | loaded | dropping | rehydrating | adopting | marking | loadingOrphans =>
    cases hx

theorem LeasesSound.works_free (h : LeasesSound ids w none) {phase : SessionPhase}
    (htask : w.tasks t = phase) : ∀ x ∈ phase.works, w.FreeFor t x :=
  fun _ hx => h.freeFor (htask ▸ hx)

theorem LeasesSound.phase (h : LeasesSound ids w none) {phase : SessionPhase}
    (htask : w.tasks t = phase) : PhaseSound ids w t.replica phase :=
  htask ▸ h.phases t nofun

theorem LeasesSound.idle (h : LeasesSound ids w none) {phase : SessionPhase}
    (hphase : PhaseSound ids w t.replica phase) (hworks : phase.works = [])
    (hconn : phase.connection = none) : LeasesSound ids (w.setTask t phase) none := by
  refine (h.except t).setTask hphase (fun x hx => ?_) fun conn hc => ?_
  · rw [hworks] at hx
    cases hx
  · rw [hconn] at hc
    cases hc

theorem LeasesSound.empty (ids : Identities) : LeasesSound ids .empty none where
  locked h := nomatch h
  distinct h := nomatch h
  leased h := nomatch h
  fresh _ _ := rfl
  active h := nomatch h
  known h := nomatch h
  drawn _ h := absurd h List.not_mem_nil
  executions _ h := absurd h List.not_mem_nil
  phases _ _ := trivial
  connections _ _ _ h := nomatch h
  alone _ _ _ _ _ h := nomatch h
  apart _ _ _ _ _ _ h := absurd h List.not_mem_nil

/-- The row of a new session is committed, and its lease is claimed. -/
theorem LeasesSound.insert (h : LeasesSound ids w none) {request : StartRequest}
    {caller : StartCaller} {sleeve account : Option UUID} {row : SessionRow}
    (htask : w.tasks t = .inserting request caller sleeve account)
    (hdrawn : ids.isExecution row.id = false) (hnew : ¬ w.Known row.id) :
    LeasesSound ids ({ w with sessions := w.sessions ++ [row] }.beginClaim t row.id
      (.runner (.start caller))) none := by
  have htables : LeasesSound ids { w with sessions := w.sessions ++ [row] } (some t) := by
    refine (h.except t).tables (fun s hs => ⟨s, List.mem_append_left _ hs, rfl⟩) (fun s hs => ?_)
      h.executions
    obtain hs | hs := List.mem_append.mp hs
    · exact h.drawn s hs
    · rw [List.mem_singleton.mp hs]
      exact hdrawn
  have hunnamed : ¬ w.Named ids row.id := by
    rintro (hexecution | hknown)
    · rw [hdrawn] at hexecution
      cases hexecution
    · exact hnew hknown
  have hknown : SessionWorld.Known { w with sessions := w.sessions ++ [row] } row.id :=
    ⟨row, List.mem_append_right _ (List.mem_singleton.mpr rfl), rfl⟩
  refine htables.beginClaim (fun x hx => ?_) ⟨?_, hknown, h.phase htask⟩
  · obtain rfl | hx := List.mem_cons.mp hx
    · exact fun t' _ _ hmem => hunnamed (h.works_named hmem)
    · exact h.works_free htask x hx
  · intro i runner hrunner _ hsession
    exact absurd (hsession ▸ (h.known hrunner).named) hunnamed

theorem lease_die (x : UUID) (r replica : ℕ) :
    (w.die replica).lease x r = if r = replica then none else w.lease x r := by
  rw [SessionWorld.lease, SessionWorld.die]
  by_cases hr : r = replica
  · rw [if_pos hr, hr]
    simp only [Function.update_self]
    rfl
  · rw [if_neg hr]
    simp only [Function.update_of_ne hr]
    rfl

theorem runners_die {i replica : ℕ} {runner : Runner}
    (h : (w.die replica).runners i = some runner) :
    ∃ old, w.runners i = some old ∧
      runner = if old.replica = replica then { old with phase := .ended } else old := by
  obtain ⟨old, hold, rfl⟩ := Option.map_eq_some_iff.mp h
  exact ⟨old, hold, rfl⟩

theorem tasks_die {replica : ℕ} (ht : t.replica ≠ replica) :
    (w.die replica).tasks t = w.tasks t := if_neg ht

theorem tasks_die_self {replica : ℕ} (ht : t.replica = replica) :
    (w.die replica).tasks t = .idle := if_pos ht

theorem LeasesLocked.die (h : LeasesLocked ids w) (replica : ℕ) :
    LeasesLocked ids (w.die replica) := by
  have hold : ∀ {x r conn}, (w.die replica).lease x r = some conn →
      r ≠ replica ∧ w.lease x r = some conn := by
    intro x r conn hconn
    rw [lease_die] at hconn
    split_ifs at hconn with hr
    exact ⟨hr, hconn⟩
  refine ⟨fun {r x conn} hconn => ?_, fun hconn hconn' => h.distinct (hold hconn).2 (hold hconn').2,
    fun {r x} hsome => ?_, fun i hi => ?_, fun {i runner} hrunner hne => ?_,
    fun {i runner} hrunner => ?_, h.drawn, h.executions⟩
  · obtain ⟨hr, hlease⟩ := hold hconn
    obtain ⟨hlock, hreplica, hnumber⟩ := h.locked hlease
    refine ⟨?_, hreplica, hnumber⟩
    simp only [SessionWorld.die, hlock, Option.any_some, decide_eq_true_eq, hreplica, if_neg hr]
  · obtain ⟨conn, hconn⟩ := Option.isSome_iff_exists.mp hsome
    exact h.leased (Option.isSome_iff_exists.mpr ⟨conn, (hold hconn).2⟩)
  · simp only [SessionWorld.die, h.fresh i hi, Option.map_none]
  · obtain ⟨old, hfound, rfl⟩ := runners_die hrunner
    split_ifs at hne ⊢ with hreplica
    · exact absurd rfl hne
    · obtain ⟨hregistry, hleased⟩ := h.active hfound hne
      refine ⟨?_, ?_⟩
      · simp only [SessionWorld.die, Function.update_of_ne hreplica, hregistry]
      · rw [lease_die, if_neg hreplica]
        exact hleased
  · obtain ⟨old, hfound, rfl⟩ := runners_die hrunner
    have hknown := h.known hfound
    split_ifs
    · exact hknown
    · exact hknown

/-- A replica dies, and its connections with it. -/
theorem LeasesSound.die (h : LeasesSound ids w none) (replica : ℕ) :
    LeasesSound ids (w.die replica) none := by
  have hquiet : ∀ {r x}, w.Quiet r x → (w.die replica).Quiet r x := by
    intro r x hquiet i runner hrunner hreplica hsession
    obtain ⟨old, hold, rfl⟩ := runners_die hrunner
    split_ifs at hreplica hsession ⊢
    · rfl
    · exact hquiet i old hold hreplica hsession
  have hworks : ∀ {t x}, x ∈ ((w.die replica).tasks t).works → x ∈ (w.tasks t).works := by
    intro t x hx
    by_cases ht : t.replica = replica
    · rw [tasks_die_self ht] at hx
      cases hx
    · rwa [tasks_die ht] at hx
  have hconnection : ∀ {t conn}, ((w.die replica).tasks t).connection = some conn →
      t.replica ≠ replica ∧ (w.tasks t).connection = some conn := by
    intro t conn hconn
    by_cases ht : t.replica = replica
    · rw [tasks_die_self ht] at hconn
      cases hconn
    · rw [tasks_die ht] at hconn
      exact ⟨ht, hconn⟩
  refine ⟨h.toLeasesLocked.die replica, fun t _ => ?_, fun t _ conn hconn => ?_,
    fun t₁ t₂ _ _ conn h₁ h₂ => h.alone t₁ t₂ nofun nofun conn (hconnection h₁).2 (hconnection h₂).2,
    fun t₁ t₂ _ _ hreplica x h₁ h₂ => h.apart t₁ t₂ nofun nofun hreplica x (hworks h₁) (hworks h₂)⟩
  · by_cases ht : t.replica = replica
    · rw [tasks_die_self ht]
      trivial
    · rw [tasks_die ht]
      refine (h.phases t nofun).frame (fun _ hx => hx) (fun x _ => ?_) fun _ _ => hquiet
      rw [lease_die, if_neg ht]
  · obtain ⟨ht, hold⟩ := hconnection hconn
    obtain ⟨hreplica, hnumber, hunused⟩ := h.connections t nofun conn hold
    refine ⟨hreplica, hnumber, fun x => ?_⟩
    rw [lease_die, if_neg ht]
    exact hunused x

theorem LeasesSound.claimStep (h : LeasesSound ids w none) {action : SessionAction}
    (hclaim : action = .probe t ∨ (∃ ok, action = .openConnection t ok) ∨
      ∃ ok, action = .lock t ok)
    (hstep : sessionStep ids w action = some w') : LeasesSound ids w' none := by
  obtain rfl | ⟨ok, rfl⟩ | ⟨ok, rfl⟩ := hclaim
  · simp only [sessionStep] at hstep
    split at hstep
    · rename_i id conn use htask
      obtain ⟨hlease, huse⟩ := h.phase htask
      rw [if_pos (h.locked hlease).1] at hstep
      cases hstep
      exact (h.except t).claimed (h.works_free htask)
        (Option.isSome_iff_exists.mpr ⟨conn, hlease⟩) huse
    · cases hstep
  · simp only [sessionStep] at hstep
    split at hstep
    · rename_i id use htask
      split_ifs at hstep
      · cases hstep
        have hnext : LeasesSound ids { w with nextConnection := w.nextConnection + 1 } (some t) := by
          refine (h.except t).transfer ⟨fun hlease => ?_, h.distinct, h.leased, h.fresh, h.active,
            h.known, h.drawn, h.executions⟩ rfl (fun _ hx => hx) (fun _ _ _ _ => rfl)
            (fun _ _ _ _ hx => hx) (Nat.le_succ _)
            fun t' ht' c hc => (h.connections t' (Option.some_ne_none t') c hc).2.2
          obtain ⟨hlock, hreplica, hnumber⟩ := h.locked hlease
          exact ⟨hlock, hreplica, hnumber.trans (Nat.lt_succ_self _)⟩
        have hfree : ∀ x ∈ id :: use.held, w.FreeFor t x := h.works_free htask
        refine hnext.setTask (h.phase htask) hfree ?_
        rintro c ⟨rfl⟩
        refine ⟨rfl, Nat.lt_succ_self _, fun x hx => ?_, fun t' _ hc => ?_⟩
        · exact absurd (h.locked hx).2.2 (lt_irrefl _)
        · exact absurd (h.connections t' (Option.some_ne_none t') _ hc).2.1 (lt_irrefl _)
      · cases hstep
        exact (h.except t).notClaimed (h.works_free htask) (h.phase htask)
    · cases hstep
  · simp only [sessionStep] at hstep
    split at hstep
    · rename_i id conn use htask
      have huse := h.phase htask
      have hown : w.OwnConnection t conn := h.ownConnection (by rw [htask]; rfl)
      split_ifs at hstep with hgranted
      · cases hstep
        have hid := List.mem_cons_self (a := id) (l := use.held)
        refine ((h.except t).lock (h.works_free htask id hid) (ClaimUse.Sound.named huse hid)
          hgranted.2 hown).claimed (h.works_free htask) ?_
          (ClaimUse.Sound.mono (fun _ hx => hx) (fun hquiet => hquiet) huse)
        rw [lease_setLease, if_pos ⟨rfl, rfl⟩]
        rfl
      · cases hstep
        exact (h.except t).notClaimed (h.works_free htask) huse
    · cases hstep

theorem LeasesSound.stopStep (h : LeasesSound ids w none) {action : SessionAction}
    (hstop : (∃ ok, action = .runnerStopped t ok) ∨ ∃ ok, action = .taskCancelled t ok)
    (hstep : sessionStep ids w action = some w') : LeasesSound ids w' none := by
  obtain ⟨ok, rfl⟩ | ⟨ok, rfl⟩ := hstop
  · simp only [sessionStep] at hstep
    split at hstep
    · rename_i id use htask
      obtain ⟨hquiet, huse⟩ := h.phase htask
      have hfree : ∀ x ∈ [id], w.FreeFor t x := h.works_free htask
      split at hstep
      · cases hstep
        exact ((h.except t).advanceRunner fun _ => rfl).setTask
          ⟨quiet_advanceRunner (fun _ => rfl) hquiet, huse.mono fun _ hx => hx⟩ hfree fun _ hconn => by cases hconn
      · cases hstep
        exact (h.except t).afterStop true (hfree id (List.mem_singleton.mpr rfl)) hquiet huse
    · cases hstep
  · simp only [sessionStep] at hstep
    split at hstep
    · rename_i id runner use htask
      obtain ⟨hquiet, huse⟩ := h.phase htask
      have hfree : w.FreeFor t id := h.works_free htask id (List.mem_singleton.mpr rfl)
      have hadvanced : LeasesSound ids (w.advanceRunner runner (fun _ => true) .ended) (some t) :=
        (h.except t).advanceRunner fun _ => rfl
      have hquiet' : (w.advanceRunner runner (fun _ => true) .ended).Quiet t.replica id :=
        quiet_advanceRunner (fun _ => rfl) hquiet
      split_ifs at hstep
      · cases hstep
        exact (hadvanced.unregister hquiet').afterStop false hfree hquiet' (huse.mono fun _ hx => hx)
      · cases hstep
        exact hadvanced.afterStop true hfree hquiet' (huse.mono fun _ hx => hx)
    · cases hstep

theorem mem_keys_named (h : LeasesLocked ids w) {replica : ℕ} {x : UUID}
    (hx : x ∈ (w.leases replica).keys) : w.Named ids x :=
  h.leased (AList.lookup_isSome.mpr (AList.mem_keys.mpr hx))

theorem known_of_getSessionById {tenant id : UUID} {row : SessionRow}
    (h : getSessionById w.sessions tenant id = some row) : w.Known id := by
  have hmatch := List.find?_some h
  simp only [decide_eq_true_eq] at hmatch
  exact ⟨row, List.mem_of_find?_eq_some h, hmatch.1⟩

theorem knownOnly_loadLiveSpecs : KnownOnly w (loadLiveSpecs w.sessions) := by
  intro spec hspec
  obtain ⟨s, hs, rfl⟩ := List.mem_map.mp hspec
  exact ⟨s, List.mem_of_mem_filter hs, rfl⟩

/-- A session whose only registered runner does not run or get ready is quiet. -/
theorem LeasesSound.quiet (h : LeasesSound ids w none) {replica : ℕ} {id : UUID}
    (hnone : w.NoneStarting replica id) (hinactive : ¬ w.isActive id replica = true) :
    w.Quiet replica id := by
  intro i runner hrunner hreplica hsession
  cases hphase : runner.phase with
  | ended => rfl
  | starting => exact absurd hphase (hnone i runner hrunner hreplica hsession)
  | running =>
    refine absurd ?_ hinactive
    have hregistry := (h.active hrunner (by rw [hphase]; exact nofun)).1
    rw [hreplica, hsession] at hregistry
    simp [SessionWorld.isActive, SessionWorld.getRunner, hregistry, hrunner, hphase]

theorem LeasesSound.startStep (h : LeasesSound ids w none) {action : SessionAction}
    (hstart : (∃ request, action = .start t request) ∨ (∃ ok, action = .resolve t ok) ∨
      action = .check t ∨ (∃ id ok, action = .insert t id ok) ∨ action = .setError t ∨
      ∃ ok, action = .startRunner t ok)
    (hstep : sessionStep ids w action = some w') : LeasesSound ids w' none := by
  obtain ⟨request, rfl⟩ | ⟨ok, rfl⟩ | rfl | ⟨id, ok, rfl⟩ | rfl | ⟨ok, rfl⟩ := hstart
  · simp only [sessionStep] at hstep
    split at hstep
    · cases hstep
      exact h.idle trivial rfl rfl
    · cases hstep
  · simp only [sessionStep] at hstep
    split at hstep
    · rename_i request caller htask
      have hfree : ∀ x ∈ caller.held, w.FreeFor t x := h.works_free htask
      have hcaller : caller.Sound ids := h.phase htask
      split at hstep
      · cases hstep
        exact (h.except t).setTask hcaller hfree fun _ hconn => by cases hconn
      · cases hstep
        exact (h.except t).setTask hcaller hfree fun _ hconn => by cases hconn
      · cases hstep
        exact (h.except t).startRaises hfree hcaller
    · cases hstep
  · simp only [sessionStep] at hstep
    split at hstep
    · rename_i request caller sleeve account htask
      have hfree : ∀ x ∈ caller.held, w.FreeFor t x := h.works_free htask
      have hcaller : caller.Sound ids := h.phase htask
      split at hstep
      · cases hstep
        exact (h.except t).setTask hcaller hfree fun _ hconn => by cases hconn
      · cases hstep
        exact (h.except t).startRaises hfree hcaller
    · cases hstep
  · simp only [sessionStep] at hstep
    split at hstep
    · rename_i request caller sleeve account htask
      split_ifs at hstep with hok hused
      · cases hstep
        exact (h.except t).startRaises (h.works_free htask) (h.phase htask)
      · cases hstep
        push Not at hused
        refine h.insert htask (by simpa using hused.1) ?_
        rintro ⟨s, hs, hsid⟩
        exact hused.2 s hs hsid
    · cases hstep
  · simp only [sessionStep] at hstep
    split at hstep
    · rename_i id caller htask
      cases hstep
      exact ((h.except t).write id .error).startRaises (h.works_free htask) (h.phase htask)
    · cases hstep
  · simp only [sessionStep] at hstep
    split at hstep
    · rename_i id use htask
      obtain ⟨hlease, hquiet, hknown, huse⟩ := h.phase htask
      have hfree : ∀ x ∈ id :: use.held, w.FreeFor t x := h.works_free htask
      split_ifs at hstep
      · have hregistered := (h.except t).register (hfree id (List.mem_cons_self ..)) hlease hquiet
          hknown
        split at hstep
        · cases hstep
          exact hregistered.startReturns hfree hknown huse
        · cases hstep
          exact hregistered.setTask huse (fun _ hx => absurd hx List.not_mem_nil) fun _ hconn => by cases hconn
      · cases hstep
        exact (h.except t).notStarted hfree hquiet hknown huse
    · cases hstep

theorem LeasesSound.passStep (h : LeasesSound ids w none) {action : SessionAction}
    (hpass : action = .rehydrate t ∨ action = .sweep t ∨ action = .probeSwept t ∨
      action = .discard t ∨ action = .load t ∨ action = .beginDrops t ∨ action = .drop t ∨
      action = .reclaim t)
    (hok : SessionsApart w action) (hstep : sessionStep ids w action = some w') :
    LeasesSound ids w' none := by
  obtain rfl | rfl | rfl | rfl | rfl | rfl | rfl | rfl := hpass
  · simp only [sessionStep] at hstep
    split at hstep
    · cases hstep
      exact h.idle (fun x hx => mem_keys_named h.toLeasesLocked hx) rfl rfl
    · cases hstep
  · simp only [sessionStep] at hstep
    split at hstep
    · rename_i id rest htask
      have hnamed := h.phase htask
      have hrest : ∀ x ∈ rest, w.Named ids x := fun x hx => hnamed x (List.mem_cons_of_mem _ hx)
      simp only [SessionsApart, htask] at hok
      split at hstep
      · rename_i conn hlease
        cases hstep
        refine (h.except t).setTask ⟨hlease, hrest⟩ (fun x hx => ?_) fun _ hconn => by cases hconn
        rw [List.mem_singleton.mp hx]
        exact hok
      · rename_i hlease
        cases hstep
        refine (h.except t).beginStop hok (fun i runner hrunner hreplica hsession hstarting => ?_)
          ⟨hnamed id (List.mem_cons_self ..), hrest⟩
        have hleased := (h.active hrunner (by rw [hstarting]; simp)).2
        rw [hreplica, hsession, hlease] at hleased
        cases hleased
    · cases hstep
  · simp only [sessionStep] at hstep
    split at hstep
    · rename_i id conn rest htask
      obtain ⟨hlease, hrest⟩ := h.phase htask
      rw [if_pos (h.locked hlease).1] at hstep
      cases hstep
      exact h.idle hrest rfl rfl
    · cases hstep
  · simp only [sessionStep] at hstep
    split at hstep
    · rename_i id rest htask
      exact (h.phase htask).elim
    · cases hstep
  · simp only [sessionStep] at hstep
    split at hstep
    · cases hstep
      exact h.idle knownOnly_loadLiveSpecs rfl rfl
    · cases hstep
  · simp only [sessionStep] at hstep
    split at hstep
    · rename_i specs htask
      cases hstep
      exact h.idle ⟨fun x hx => mem_keys_named h.toLeasesLocked hx, h.phase htask⟩ rfl rfl
    · cases hstep
  · simp only [sessionStep] at hstep
    split at hstep
    · rename_i id rest specs htask
      obtain ⟨hnamed, hspecs⟩ := h.phase htask
      have hrest : ∀ x ∈ rest, w.Named ids x := fun x hx => hnamed x (List.mem_cons_of_mem _ hx)
      simp only [SessionsApart, htask] at hok
      split_ifs at hstep with hlive hactive
      · cases hstep
        exact h.idle ⟨hrest, hspecs⟩ rfl rfl
      · cases hstep
        exact (h.except t).beginStop (hok hlive).1 (hok hlive).2
          ⟨hnamed id (List.mem_cons_self ..), hrest, hspecs⟩
      · cases hstep
        refine (h.except t).beginRelease (fun x hx => ?_) (h.quiet (hok hlive).2 hactive)
          ⟨hnamed id (List.mem_cons_self ..), hrest, hspecs⟩
        rw [List.mem_singleton.mp hx]
        exact (hok hlive).1
    · rename_i specs htask
      cases hstep
      exact h.idle (h.phase htask).2 rfl rfl
    · cases hstep
  · simp only [sessionStep] at hstep
    split at hstep
    · rename_i spec rest htask
      have hspecs : KnownOnly w (spec :: rest) := h.phase htask
      have hrest : KnownOnly w rest := fun s hs => hspecs s (List.mem_cons_of_mem _ hs)
      simp only [SessionsApart, htask] at hok
      split_ifs at hstep with hactive
      · cases hstep
        exact h.idle hrest rfl rfl
      · cases hstep
        obtain ⟨hfree, hnone⟩ := hok (by simpa using hactive)
        exact (h.except t).beginStop hfree hnone ⟨hspecs spec (List.mem_cons_self ..), hrest⟩
    · cases hstep
      exact h.idle trivial rfl rfl
    · cases hstep

theorem LeasesSound.step (h : LeasesSound ids w none) {action : SessionAction}
    (hok : SessionsApart w action) (hstep : sessionStep ids w action = some w') :
    LeasesSound ids w' none := by
  cases action with
  | fund executions =>
    simp only [sessionStep] at hstep
    split_ifs at hstep with hallow
    cases hstep
    refine h.tables (fun s hs => ⟨s, hs, rfl⟩) h.drawn fun e he => ?_
    have hall := List.all_eq_true.mp hallow e he
    rw [Identities.allow, Bool.and_eq_true] at hall
    exact hall.1
  | start t request => exact h.startStep (.inl ⟨request, rfl⟩) hstep
  | resolve t ok => exact h.startStep (.inr (.inl ⟨ok, rfl⟩)) hstep
  | check t => exact h.startStep (.inr (.inr (.inl rfl))) hstep
  | insert t id ok => exact h.startStep (.inr (.inr (.inr (.inl ⟨id, ok, rfl⟩)))) hstep
  | setError t => exact h.startStep (.inr (.inr (.inr (.inr (.inl rfl))))) hstep
  | startRunner t ok => exact h.startStep (.inr (.inr (.inr (.inr (.inr ⟨ok, rfl⟩))))) hstep
  | probe t => exact h.claimStep (.inl rfl) hstep
  | openConnection t ok => exact h.claimStep (.inr (.inl ⟨ok, rfl⟩)) hstep
  | lock t ok => exact h.claimStep (.inr (.inr ⟨ok, rfl⟩)) hstep
  | runnerStopped t ok => exact h.stopStep (.inl ⟨ok, rfl⟩) hstep
  | taskCancelled t ok => exact h.stopStep (.inr ⟨ok, rfl⟩) hstep
  | unlock t =>
    simp only [sessionStep] at hstep
    split at hstep
    · rename_i id conn use htask
      cases hstep
      obtain ⟨hreplica, -, hunused, -⟩ := h.ownConnection (t := t) (by rw [htask]; rfl)
      refine ((h.except t).unlock hreplica hunused _).afterRelease (fun x hx => ?_) (h.phase htask)
      exact h.works_free htask x (List.mem_cons_of_mem _ hx)
    · cases hstep
  | stop t tenant id =>
    simp only [sessionStep] at hstep
    split at hstep
    · rename_i row htask hrow
      have hknown := known_of_getSessionById hrow
      split_ifs at hstep with hactive
      · cases hstep
        exact (h.except t).beginStop hok.1 hok.2 hknown
      · cases hstep
        refine (h.except t).beginRelease (fun x hx => ?_) (h.quiet hok.2 hactive) hknown
        rw [List.mem_singleton.mp hx]
        exact hok.1
    · cases hstep
  | pause t tenant id =>
    simp only [sessionStep] at hstep
    split at hstep
    · split_ifs at hstep
      cases hstep
      exact h.idle trivial rfl rfl
    · cases hstep
  | resume t tenant id =>
    simp only [sessionStep] at hstep
    split at hstep
    · split_ifs at hstep
      cases hstep
      exact h.idle trivial rfl rfl
    · cases hstep
  | mark t =>
    simp only [sessionStep] at hstep
    split at hstep
    · cases hstep
      exact (h.write _ _).idle trivial rfl rfl
    · cases hstep
  | rehydrate t => exact h.passStep (.inl rfl) hok hstep
  | sweep t => exact h.passStep (.inr (.inl rfl)) hok hstep
  | probeSwept t => exact h.passStep (.inr (.inr (.inl rfl))) hok hstep
  | discard t => exact h.passStep (.inr (.inr (.inr (.inl rfl)))) hok hstep
  | load t => exact h.passStep (.inr (.inr (.inr (.inr (.inl rfl))))) hok hstep
  | beginDrops t => exact h.passStep (.inr (.inr (.inr (.inr (.inr (.inl rfl)))))) hok hstep
  | drop t => exact h.passStep (.inr (.inr (.inr (.inr (.inr (.inr (.inl rfl))))))) hok hstep
  | reclaim t => exact h.passStep (.inr (.inr (.inr (.inr (.inr (.inr (.inr rfl))))))) hok hstep
  | adopt t =>
    simp only [sessionStep] at hstep
    split at hstep
    · cases hstep
      exact h.idle trivial rfl rfl
    · cases hstep
  | loadOrphans t now =>
    simp only [sessionStep] at hstep
    split at hstep
    · cases hstep
      refine h.idle (fun spec hspec => ?_) rfl rfl
      obtain ⟨e, he, rfl⟩ := List.mem_map.mp hspec
      exact h.executions e (List.mem_of_mem_filter he)
    · cases hstep
  | adoptNext t =>
    simp only [sessionStep] at hstep
    split at hstep
    · rename_i spec rest htask
      have hspecs : ExecutionsOnly ids (spec :: rest) := h.phase htask
      have hrest : ExecutionsOnly ids rest := fun s hs => hspecs s (List.mem_cons_of_mem _ hs)
      simp only [SessionsApart, htask] at hok
      split at hstep
      · cases hstep
        exact h.idle hrest rfl rfl
      · cases hstep
        refine (h.except t).beginClaim (fun x hx => ?_)
          ⟨rfl, hspecs spec (List.mem_cons_self ..), hrest⟩
        rw [List.mem_singleton.mp hx]
        exact hok
    · cases hstep
      exact h.idle trivial rfl rfl
    · cases hstep
  | run runner =>
    simp only [sessionStep] at hstep
    split at hstep
    · cases hstep
      exact h.advanceRunner fun hne => by cases hne
    · cases hstep
  | exit runner =>
    cases hstep
    exact h.advanceRunner fun _ => rfl
  | die replica =>
    cases hstep
    exact h.die replica

end Steps

/-- **One runner per session.** In every run in which no two tasks of a replica work on one session
at a time, and no session is stopped, dropped or claimed again while its runner gets ready there, a
replica that runs a session holds its lease, and no session has two running runners. -/
theorem running_sessions_leased (ids : Identities) {w : SessionWorld} {actions : List SessionAction}
    (hmeets : Transition.Meets (sessionStep ids) SessionsApart .empty actions)
    (hrun : Transition.run (sessionStep ids) .empty actions = some w) :
    (∀ i runner, w.runners i = some runner → runner.phase = .running →
      w.HoldsLease runner.replica runner.sessionId) ∧
    ∀ i j runner runner', w.runners i = some runner → w.runners j = some runner' →
      runner.phase = .running → runner'.phase = .running →
      runner.sessionId = runner'.sessionId → i = j := by
  have hsound : LeasesSound ids w none := Transition.run_invariant
    (I := fun w => LeasesSound ids w none) (fun _ _ _ h hok hstep => h.step hok hstep) (LeasesSound.empty ids) hmeets hrun
  have hactive : ∀ {i runner}, w.runners i = some runner → runner.phase = .running →
      w.registry runner.replica runner.sessionId = some i ∧
        ∃ conn, w.lease runner.sessionId runner.replica = some conn := by
    intro i runner hrunner hphase
    obtain ⟨hregistry, hleased⟩ := hsound.active hrunner (by rw [hphase]; exact nofun)
    exact ⟨hregistry, Option.isSome_iff_exists.mp hleased⟩
  refine ⟨fun i runner hrunner hphase => ?_,
    fun i j runner runner' hrunner hrunner' hphase hphase' hsession => ?_⟩
  · obtain ⟨-, conn, hlease⟩ := hactive hrunner hphase
    exact ⟨conn, hlease, (hsound.locked hlease).1⟩
  · obtain ⟨hregistry, conn, hlease⟩ := hactive hrunner hphase
    obtain ⟨hregistry', conn', hlease'⟩ := hactive hrunner' hphase'
    obtain ⟨hlock, hreplica, -⟩ := hsound.locked hlease
    obtain ⟨hlock', hreplica', -⟩ := hsound.locked hlease'
    rw [hsession, hlock'] at hlock
    cases hlock
    rw [hsession, ← hreplica, hreplica', hregistry'] at hregistry
    exact (Option.some.inj hregistry).symm

namespace Sample

/-- A session is started on the first replica. -/
def startFirst : List SessionAction :=
  [.start ⟨0, 0⟩ deployRequest, .resolve ⟨0, 0⟩ true, .check ⟨0, 0⟩,
    .insert ⟨0, 0⟩ firstSession true, .openConnection ⟨0, 0⟩ true, .lock ⟨0, 0⟩ true,
    .startRunner ⟨0, 0⟩ true]

/-- A pass of the second replica, as far as the claim. -/
def passSecond : List SessionAction :=
  [.rehydrate ⟨1, 0⟩, .load ⟨1, 0⟩, .beginDrops ⟨1, 0⟩, .drop ⟨1, 0⟩, .reclaim ⟨1, 0⟩,
    .openConnection ⟨1, 0⟩ true, .lock ⟨1, 0⟩ true]

/-- The second replica does not get the lease. -/
def leaseRefused : List SessionAction := [deployFunded] ++ startFirst ++ [.run 0] ++ passSecond

/-- A pass of the first replica has loaded the live sessions before the session is started, and
drops its lease while the runner gets ready. -/
def leaseDropped : List SessionAction :=
  [deployFunded, .rehydrate ⟨0, 1⟩, .load ⟨0, 1⟩] ++ startFirst ++
    [.beginDrops ⟨0, 1⟩, .drop ⟨0, 1⟩, .unlock ⟨0, 1⟩, .run 0] ++ passSecond ++
    [.startRunner ⟨1, 0⟩ true, .run 1]

end Sample

theorem running_sessions_leased_refused :
    ∃ w, Transition.run (sessionStep Sample.deployIds) .empty Sample.leaseRefused = some w ∧
      w.runners 0 = some ⟨0, Sample.firstSession, .running⟩ ∧
      w.HoldsLease 0 Sample.firstSession := by
  have hmeets : Transition.Meets (sessionStep Sample.deployIds) SessionsApart .empty
      Sample.leaseRefused := by
    iterate 13 refine Transition.meets_cons rfl trivial ?_
    refine Transition.meets_cons rfl (fun _ => ⟨fun t hne hreplica hmem => ?_,
      fun i runner hrunner hreplica _ _ => ?_⟩) ?_
    · have hidle := idle_of_other_run (t := t) (fun action haction htask => ?_)
        (rfl : Transition.run (sessionStep Sample.deployIds) .empty
          (Sample.leaseRefused.take 13) = some _)
      · exact absurd ((congrArg SessionPhase.works hidle) ▸ hmem) List.not_mem_nil
      · have hnamed : ∀ a ∈ Sample.leaseRefused, a.task = none ∨ a.task = some ⟨0, 0⟩ ∨
            a.task = some ⟨1, 0⟩ := by decide
        have hcases := hnamed action (List.mem_of_mem_take haction)
        obtain ⟨r, n⟩ := t
        simp_all
    · by_cases hi : i = 0
      · subst hi
        cases hrunner
        cases hreplica
      · have hnone : Function.update (Function.update (fun _ => none) 0 _) 0 _ i = some runner :=
          hrunner
        rw [Function.update_of_ne hi, Function.update_of_ne hi] at hnone
        cases hnone
    · exact Transition.meets_cons rfl trivial (Transition.meets_cons rfl trivial trivial)
  obtain ⟨w, hrun, hrunner⟩ : ∃ w, Transition.run (sessionStep Sample.deployIds) .empty
      Sample.leaseRefused = some w ∧ w.runners 0 = some ⟨0, Sample.firstSession, .running⟩ :=
    ⟨_, rfl, rfl⟩
  exact ⟨w, hrun, hrunner,
    (running_sessions_leased Sample.deployIds hmeets hrun).1 0 _ hrunner rfl⟩

/-- Both replicas run the session, and the first one without a lease. -/
theorem dropped_lease_runs_twice :
    ∃ w, Transition.run (sessionStep Sample.deployIds) .empty Sample.leaseDropped = some w ∧
      w.runners 0 = some ⟨0, Sample.firstSession, .running⟩ ∧
      w.runners 1 = some ⟨1, Sample.firstSession, .running⟩ ∧
      ¬ w.HoldsLease 0 Sample.firstSession := by
  refine ⟨_, rfl, rfl, rfl, ?_⟩
  rintro ⟨conn, hlease, -⟩
  cases hlease

end LlamaTrade
