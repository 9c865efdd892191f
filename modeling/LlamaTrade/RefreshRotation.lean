import LlamaTrade.AuthSessions

/-!
# Rotation of refresh tokens

`refresh_token` asks for the denylist entry of the token it is given, and later writes it, before it
mints. Where no other request writes the entry in between, and the token has not expired meanwhile,
a refresh token is used at most once, and not after a logout. Two requests that ask before either
has written are both served.
-/

namespace LlamaTrade

/-- The token of a refresh has not expired when the denylist is asked and when the lifetime of its
entry is computed, and no other request denies the token before the refresh mints. -/
def rotatesAlone (w : AuthWorld) : AuthAction → Bool
  | .askDenylist t =>
    match w.tasks t with
    | .presented token => w.unexpired token
    | _ => true
  | .computeTtl t =>
    match w.tasks t with
    | .checked token _ => w.unexpired token
    | _ => true
  | .mint t =>
    match w.tasks t with
    | .rotating token seen => (w.deniers token).all fun r => seen.contains r || r == t
    | _ => true
  | _ => true

/-- What a request relies on while it waits. -/
def AuthPhase.Rotates (w : AuthWorld) (t : ℕ) : AuthPhase → Prop
  | .presented token => token < w.tokens.length
  | .notDenied token seen | .checked token seen => seen = [] ∧ token < w.tokens.length
  | .denying token seen ttl =>
    seen = [] ∧ token < w.tokens.length ∧ (w.expOf token : ℚ) ≤ w.now + ttl
  | .rotating token seen => seen = [] ∧ t ∈ w.deniers token
  | .loggingOut tokens denied =>
    (∀ token ∈ tokens, token < w.tokens.length) ∧ ∀ token ∈ denied, t ∈ w.deniers token
  | .loggingOutOf token ttl tokens denied =>
    (token < w.tokens.length ∧ (w.expOf token : ℚ) ≤ w.now + ttl) ∧
      (∀ token ∈ tokens, token < w.tokens.length) ∧ ∀ token ∈ denied, t ∈ w.deniers token
  | _ => True

/-- A denied token is on the denylist until it expires. Who refreshed a token, and a logout that
denied it, has denied it and ended. -/
structure AuthWorld.RotatedOnce (w : AuthWorld) : Prop where
  inRange : ∀ token, w.deniers token ≠ [] → token < w.tokens.length
  denied : ∀ token, w.deniers token ≠ [] →
    ∃ until_, w.denylist token = some until_ ∧ (w.expOf token : ℚ) ≤ until_
  refreshed : ∀ token ∈ w.refreshed, ∃ r ∈ w.deniers token, w.tasks r = .done
  loggedOut : ∀ token ∈ w.loggedOut, ∃ r ∈ w.deniers token, w.tasks r = .done
  once : ∀ token, w.refreshed.count token ≤ 1
  tasks : ∀ t, (w.tasks t).Rotates w t

/-! ## Frames -/

/-- Tokens and denials are only added, and time goes on. -/
structure AuthWorld.Grows (w w' : AuthWorld) : Prop where
  now : w.now ≤ w'.now
  length : w.tokens.length ≤ w'.tokens.length
  exp : ∀ token < w.tokens.length, w'.expOf token = w.expOf token
  deniers : ∀ token, ∀ r ∈ w.deniers token, r ∈ w'.deniers token

section Frames

variable {w w' : AuthWorld} {t : ℕ} {phase : AuthPhase}

theorem AuthPhase.Rotates.mono (h : phase.Rotates w t) (hgrows : w.Grows w') :
    phase.Rotates w' t := by
  have hlength : ∀ {token : ℕ}, token < w.tokens.length → token < w'.tokens.length :=
    fun htoken => htoken.trans_le hgrows.length
  have htime : ∀ {token : ℕ} {ttl : ℤ}, token < w.tokens.length →
      (w.expOf token : ℚ) ≤ w.now + ttl → (w'.expOf token : ℚ) ≤ w'.now + ttl := by
    intro token ttl htoken hexp
    rw [hgrows.exp token htoken]
    linarith [hgrows.now]
  cases phase with
  | presented token => exact hlength h
  | notDenied token seen => exact ⟨h.1, hlength h.2⟩
  | checked token seen => exact ⟨h.1, hlength h.2⟩
  | denying token seen ttl => exact ⟨h.1, hlength h.2.1, htime h.2.1 h.2.2⟩
  | rotating token seen => exact ⟨h.1, hgrows.deniers _ _ h.2⟩
  | loggingOut tokens denied =>
    exact ⟨fun x hx => hlength (h.1 x hx), fun x hx => hgrows.deniers _ _ (h.2 x hx)⟩
  | loggingOutOf token ttl tokens denied =>
    exact ⟨⟨hlength h.1.1, htime h.1.1 h.1.2⟩, fun x hx => hlength (h.2.1 x hx),
      fun x hx => hgrows.deniers _ _ (h.2.2 x hx)⟩
  | _ => trivial

theorem rotates_update (h : ∀ t, (w.tasks t).Rotates w t) (hgrows : w.Grows w')
    (htasks : w'.tasks = Function.update w.tasks t phase) (hphase : phase.Rotates w' t) (t' : ℕ) :
    (w'.tasks t').Rotates w' t' := by
  rw [htasks]
  by_cases ht : t' = t
  · subst ht
    rwa [Function.update_self]
  · rw [Function.update_of_ne ht]
    exact (h t').mono hgrows

end Frames

/-! ## The invariant -/

section Steps

variable {life : Lifetimes} {w w' : AuthWorld} {action : AuthAction}

theorem mem_deniers_writeDenial {t token x r : ℕ} (ttl : ℤ) (h : r ∈ w.deniers x) :
    r ∈ (w.writeDenial t token ttl).deniers x := by
  by_cases hx : x = token
  · subst hx
    simp [AuthWorld.writeDenial, h]
  · simpa [AuthWorld.writeDenial, hx] using h

theorem expOf_append (w : AuthWorld) (more : List AuthToken) {token : ℕ}
    (htoken : token < w.tokens.length) :
    ((w.tokens ++ more)[token]?).elim 0 (·.exp) = w.expOf token := by
  rw [List.getElem?_append_left htoken, AuthWorld.expOf]

theorem grows_step (hstep : authStep life w action = some w') : w.Grows w' := by
  cases authStep_effect hstep with
  | waited hseconds =>
    exact ⟨le_add_of_nonneg_right hseconds, le_rfl, fun _ _ => rfl, fun _ _ hr => hr⟩
  | loggedIn =>
    exact ⟨le_rfl, by simp, fun _ htoken => expOf_append w _ htoken, fun _ _ hr => hr⟩
  | @denied t token seen ttl _ =>
    exact ⟨le_rfl, le_rfl, fun _ _ => rfl, fun _ _ hr => mem_deniers_writeDenial ttl hr⟩
  | @logoutDenied t token ttl tokens denied _ =>
    exact ⟨le_rfl, le_rfl, fun _ _ => rfl, fun _ _ hr => mem_deniers_writeDenial ttl hr⟩
  | minted =>
    exact ⟨le_rfl, by simp, fun _ htoken => expOf_append w _ htoken, fun _ _ hr => hr⟩
  | returned =>
    refine ⟨le_rfl, by simp [AuthWorld.setTask, AuthWorld.endOlder], fun token htoken => ?_,
      fun _ _ hr => hr⟩
    simp [AuthWorld.expOf, AuthWorld.setTask, AuthWorld.endOlder, htoken]
  | _ => exact ⟨le_rfl, le_rfl, fun _ _ => rfl, fun _ _ hr => hr⟩

theorem unexpired_iff {token : ℕ} :
    w.unexpired token = true ↔ token < w.tokens.length ∧ w.now < w.expOf token := by
  simp [AuthWorld.unexpired]

theorem lt_length_of_isRefresh {token : ℕ} (h : w.isRefresh token = true) :
    token < w.tokens.length := by
  by_contra hlength
  rw [AuthWorld.isRefresh, List.getElem?_eq_none (by omega)] at h
  cases h

/-- An unexpired token that is not on the denylist was never denied. -/
theorem deniers_eq_nil (h : w.RotatedOnce) {token : ℕ} (hunexpired : w.unexpired token = true)
    (hdenied : w.isDenied token = false) : w.deniers token = [] := by
  by_contra hne
  obtain ⟨until_, hentry, hexp⟩ := h.denied token hne
  have hnow : w.now < until_ := (unexpired_iff.mp hunexpired).2.trans_le hexp
  simp [AuthWorld.isDenied, hentry, hnow] at hdenied

theorem expOf_le_denyTtl (w : AuthWorld) (token : ℕ) :
    (w.expOf token : ℚ) ≤ w.now + w.denyTtl token := by
  have hfloor := Int.floor_le w.now
  rw [AuthWorld.denyTtl, Int.cast_sub]
  linarith

theorem rotates_move (h : w.RotatedOnce) (hok : rotatesAlone w action = true) {t : ℕ} {old new : AuthPhase}
    (htask : w.tasks t = old) (hold : old.Rotates w t) (hmove : AuthMove w action t old new) :
    new.Rotates (w.setTask t new) t := by
  cases hmove with
  | present hunexpired => exact (unexpired_iff.mp hunexpired).1
  | @notDenied _ token hdenied =>
    rw [rotatesAlone, htask] at hok
    exact ⟨deniers_eq_nil h hok hdenied, hold⟩
  | @tooLate _ token seen hlate =>
    rw [rotatesAlone, htask] at hok
    have hunexpired := (unexpired_iff.mp hok).2
    have hfloor : ⌊w.now⌋ < w.expOf token := Int.floor_lt.mpr hunexpired
    rw [AuthWorld.denyTtl] at hlate
    omega
  | @ttl _ token seen => exact ⟨hold.1, hold.2, expOf_le_denyTtl w token⟩
  | @logout _ access refresh hunexpired =>
    refine ⟨fun token htoken => ?_, by simp⟩
    obtain rfl | hrefresh := List.mem_cons.mp htoken
    · exact (unexpired_iff.mp hunexpired).1
    · rw [Option.mem_toList, Option.filter_eq_some_iff] at hrefresh
      exact lt_length_of_isRefresh hrefresh.2
  | logoutSkips => exact ⟨fun x hx => hold.1 x (List.mem_cons_of_mem _ hx), hold.2⟩
  | @logoutTtl _ token tokens denied =>
    exact ⟨⟨hold.1 token List.mem_cons_self, expOf_le_denyTtl w token⟩,
      fun x hx => hold.1 x (List.mem_cons_of_mem _ hx), hold.2⟩
  | _ => trivial

/-- A step that denies nothing keeps what is known of the denylist. -/
theorem rotatedOnce_of_grows (h : w.RotatedOnce) (hstep : authStep life w action = some w')
    (hdeniers : w'.deniers = w.deniers) (hdenylist : w'.denylist = w.denylist)
    (hrefreshed : w'.refreshed = w.refreshed) (hloggedOut : w'.loggedOut = w.loggedOut)
    (htasks : ∀ t, (w'.tasks t).Rotates w' t) : w'.RotatedOnce := by
  have hgrows := grows_step hstep
  refine ⟨fun token hne => ?_, fun token hne => ?_, fun token htoken => ?_, fun token htoken => ?_,
    hrefreshed ▸ h.once, htasks⟩
  · rw [hdeniers] at hne
    exact (h.inRange token hne).trans_le hgrows.length
  · rw [hdeniers] at hne
    rw [hdenylist, hgrows.exp token (h.inRange token hne)]
    exact h.denied token hne
  · rw [hrefreshed] at htoken
    obtain ⟨r, hr, hdone⟩ := h.refreshed token htoken
    exact ⟨r, hdeniers ▸ hr, done_step hstep hdone⟩
  · rw [hloggedOut] at htoken
    obtain ⟨r, hr, hdone⟩ := h.loggedOut token htoken
    exact ⟨r, hdeniers ▸ hr, done_step hstep hdone⟩

theorem self_mem_deniers (w : AuthWorld) (t token : ℕ) (ttl : ℤ) :
    t ∈ (w.writeDenial t token ttl).deniers token := by
  simp [AuthWorld.writeDenial]

/-- An entry is written that outlives its token. -/
theorem rotatedOnce_denied (h : w.RotatedOnce) {t token : ℕ} {ttl : ℤ} {phase : AuthPhase}
    (hstep : authStep life w action = some ((w.writeDenial t token ttl).setTask t phase))
    (htoken : token < w.tokens.length) (hexp : (w.expOf token : ℚ) ≤ w.now + ttl)
    (hphase : phase.Rotates ((w.writeDenial t token ttl).setTask t phase) t) :
    ((w.writeDenial t token ttl).setTask t phase).RotatedOnce := by
  refine ⟨fun x hne => ?_, fun x hne => ?_, fun x hx => ?_, fun x hx => ?_, h.once,
    rotates_update h.tasks (grows_step hstep) rfl hphase⟩
  · by_cases hx : x = token
    · exact hx ▸ htoken
    · exact h.inRange x (by simpa [AuthWorld.setTask, AuthWorld.writeDenial, hx] using hne)
  · by_cases hx : x = token
    · subst hx
      exact ⟨w.now + ttl, by simp [AuthWorld.setTask, AuthWorld.writeDenial], hexp⟩
    · have hne : w.deniers x ≠ [] := by
        simpa [AuthWorld.setTask, AuthWorld.writeDenial, hx] using hne
      obtain ⟨until_, hentry, hle⟩ := h.denied x hne
      exact ⟨until_, by simpa [AuthWorld.setTask, AuthWorld.writeDenial, hx] using hentry, hle⟩
  · obtain ⟨r, hr, hdone⟩ := h.refreshed x hx
    exact ⟨r, mem_deniers_writeDenial ttl hr, done_step hstep hdone⟩
  · obtain ⟨r, hr, hdone⟩ := h.loggedOut x hx
    exact ⟨r, mem_deniers_writeDenial ttl hr, done_step hstep hdone⟩

/-- When a refresh mints alone, nobody who has ended has denied its token. -/
theorem not_denied_of_rotating (h : w.RotatedOnce) {t token : ℕ} {seen : List ℕ}
    (hok : rotatesAlone w (.mint t) = true) (htask : w.tasks t = .rotating token seen) {r : ℕ}
    (hr : r ∈ w.deniers token) : w.tasks r ≠ .done := by
  have hrotates := h.tasks t
  rw [htask] at hrotates
  obtain rfl := hrotates.1
  rw [rotatesAlone, htask] at hok
  obtain rfl : r = t := by simpa using List.all_eq_true.mp hok r hr
  simp [htask]

theorem rotatedOnce_step (h : w.RotatedOnce) (hok : rotatesAlone w action = true)
    (hstep : authStep life w action = some w') : w'.RotatedOnce := by
  have hgrows := grows_step hstep
  cases authStep_effect hstep with
  | waited hseconds =>
    exact rotatedOnce_of_grows h hstep rfl rfl rfl rfl fun t => (h.tasks t).mono hgrows
  | @moved _ t phase hmove =>
    exact rotatedOnce_of_grows h hstep rfl rfl rfl rfl
      (rotates_update h.tasks hgrows rfl (rotates_move h hok rfl (h.tasks t) hmove))
  | loggedIn =>
    exact rotatedOnce_of_grows h hstep rfl rfl rfl rfl
      (rotates_update h.tasks hgrows rfl trivial)
  | @accepted t token seen htask _ =>
    have hchecked := h.tasks t
    rw [htask] at hchecked
    refine rotatedOnce_of_grows h hstep rfl rfl rfl rfl (rotates_update h.tasks hgrows rfl ?_)
    split_ifs
    · exact hchecked
    · trivial
  | @denied t token seen ttl htask =>
    have hdenying := h.tasks t
    rw [htask] at hdenying
    exact rotatedOnce_denied h hstep hdenying.2.1 hdenying.2.2
      ⟨hdenying.1, self_mem_deniers w t token ttl⟩
  | @logoutDenied t token ttl tokens denied htask =>
    have hdenying := h.tasks t
    rw [htask] at hdenying
    refine rotatedOnce_denied h hstep hdenying.1.1 hdenying.1.2 ⟨hdenying.2.1, fun x hx => ?_⟩
    obtain rfl | hx := List.mem_cons.mp hx
    · exact self_mem_deniers w t x ttl
    · exact mem_deniers_writeDenial ttl (hdenying.2.2 x hx)
  | @minted t token seen claims htask _ =>
    have hrotates := h.tasks t
    rw [htask] at hrotates
    -- The one who refreshed the token before has denied it and ended.
    have hfresh : token ∉ w.refreshed := by
      intro hmem
      obtain ⟨r, hr, hdone⟩ := h.refreshed token hmem
      exact not_denied_of_rotating h hok htask hr hdone
    refine ⟨fun x hne => (h.inRange x hne).trans_le hgrows.length, fun x hne => ?_,
      fun x hx => ?_, fun x hx => ?_, fun x => ?_, rotates_update h.tasks hgrows rfl trivial⟩
    · rw [hgrows.exp x (h.inRange x hne)]
      exact h.denied x hne
    · obtain rfl | hx := List.mem_cons.mp hx
      · exact ⟨t, hrotates.2, Function.update_self ..⟩
      · obtain ⟨r, hr, hdone⟩ := h.refreshed x hx
        exact ⟨r, hr, done_step hstep hdone⟩
    · obtain ⟨r, hr, hdone⟩ := h.loggedOut x hx
      exact ⟨r, hr, done_step hstep hdone⟩
    · by_cases hx : x = token
      · subst hx
        rw [List.count_cons_self, List.count_eq_zero_of_not_mem hfresh]
      · rw [List.count_cons_of_ne (Ne.symm hx)]
        exact h.once x
  | @loggedOut t denied htask =>
    have hreturns := h.tasks t
    rw [htask] at hreturns
    refine ⟨h.inRange, h.denied, fun x hx => ?_, fun x hx => ?_, h.once,
      rotates_update h.tasks hgrows rfl trivial⟩
    · obtain ⟨r, hr, hdone⟩ := h.refreshed x hx
      exact ⟨r, hr, done_step hstep hdone⟩
    · obtain hx | hx := List.mem_append.mp hx
      · exact ⟨t, hreturns.2 x hx, Function.update_self ..⟩
      · obtain ⟨r, hr, hdone⟩ := h.loggedOut x hx
        exact ⟨r, hr, done_step hstep hdone⟩
  | committed =>
    exact rotatedOnce_of_grows h hstep rfl rfl rfl rfl
      (rotates_update h.tasks hgrows rfl trivial)
  | cut =>
    exact rotatedOnce_of_grows h hstep rfl rfl rfl rfl
      (rotates_update h.tasks hgrows rfl trivial)
  | @returned t generation _ =>
    exact rotatedOnce_of_grows h hstep rfl rfl rfl rfl
      (rotates_update h.tasks hgrows rfl trivial)

theorem AuthWorld.New.rotatedOnce (h : w.New) : w.RotatedOnce := by
  refine ⟨fun token hne => absurd (h.deniers token) hne,
    fun token hne => absurd (h.deniers token) hne, ?_, ?_, ?_, fun t => ?_⟩
  · simp [h.refreshed]
  · simp [h.loggedOut]
  · simp [h.refreshed]
  · rw [h.tasks t]
    trivial

/-- A token that a logout has denied is not refreshed any more. -/
theorem refreshed_step (h : w.RotatedOnce) (hok : rotatesAlone w action = true)
    (hstep : authStep life w action = some w') {token : ℕ} (hlogout : token ∈ w.loggedOut) :
    token ∈ w'.loggedOut ∧ w'.refreshed.count token = w.refreshed.count token := by
  cases authStep_effect hstep with
  | @minted t x seen claims htask _ =>
    refine ⟨hlogout, List.count_cons_of_ne ?_⟩
    rintro rfl
    obtain ⟨r, hr, hdone⟩ := h.loggedOut x hlogout
    exact not_denied_of_rotating h hok htask hr hdone
  | loggedOut => exact ⟨List.mem_append_right _ hlogout, rfl⟩
  | _ => exact ⟨hlogout, rfl⟩

end Steps

/-- **A refresh token is used at most once.** In every run whose refreshes rotate their tokens
alone: no token is refreshed twice, and a token that a logout has denied is not refreshed after the
logout has returned. -/
theorem refresh_tokens_used_once {life : Lifetimes} {w w₁ w₂ : AuthWorld}
    {before after : List AuthAction} (hnew : w.New)
    (hmeets : Transition.Meets (authStep life) (fun w action => rotatesAlone w action = true) w (before ++ after))
    (hbefore : Transition.run (authStep life) w before = some w₁)
    (hafter : Transition.run (authStep life) w₁ after = some w₂) (token : ℕ) :
    w₂.refreshed.count token ≤ 1 ∧
      (token ∈ w₁.loggedOut → w₂.refreshed.count token = w₁.refreshed.count token) := by
  have hfirst : w₁.RotatedOnce :=
    Transition.run_invariant (fun _ _ _ h hok hstep => rotatedOnce_step h hok hstep)
      hnew.rotatedOnce (Transition.meets_left hmeets) hbefore
  have hrest := Transition.meets_of_append hmeets hbefore
  have hlast : w₂.RotatedOnce :=
    Transition.run_invariant (fun _ _ _ h hok hstep => rotatedOnce_step h hok hstep) hfirst hrest
      hafter
  refine ⟨hlast.once token, fun hlogout => ?_⟩
  have hkept : w₂.RotatedOnce ∧ token ∈ w₂.loggedOut ∧
      w₂.refreshed.count token = w₁.refreshed.count token :=
    Transition.run_invariant
      (I := fun w => w.RotatedOnce ∧ token ∈ w.loggedOut ∧
        w.refreshed.count token = w₁.refreshed.count token)
      (fun _ _ _ h hok hstep =>
        have hnext := refreshed_step h.1 hok hstep h.2.1
        ⟨rotatedOnce_step h.1 hok hstep, hnext.1, hnext.2.trans h.2.2⟩)
      ⟨hfirst, hlogout, rfl⟩ hrest hafter
  exact hkept.2.2

namespace Sample

/-- A login, and a refresh of its refresh token. -/
def loginAndRefresh : List AuthAction :=
  [.login 0, .mintLogin 0, .present 1 1, .askDenylist 1, .askCutoff 1, .computeTtl 1, .deny 1,
    .mint 1]

end Sample

theorem refresh_tokens_used_once_twice_presented :
    ∃ w₁ w₂, Transition.run (authStep Sample.tokenLifetimes) Sample.noSessions
        Sample.loginAndRefresh = some w₁ ∧ w₁.refreshed = [1] ∧
      Transition.run (authStep Sample.tokenLifetimes) w₁ [.present 2 1, .askDenylist 2] = some w₂ ∧
      w₂.refreshed.count 1 ≤ 1 := by
  have hmeets : Transition.Meets (authStep Sample.tokenLifetimes)
      (fun w action => rotatesAlone w action = true) Sample.noSessions
      (Sample.loginAndRefresh ++ [.present 2 1, .askDenylist 2]) := by decide +kernel
  have hends : (Transition.run (authStep Sample.tokenLifetimes) Sample.noSessions
      (Sample.loginAndRefresh ++ [.present 2 1, .askDenylist 2])).isSome = true := by decide +kernel
  have hmiddle : (Transition.run (authStep Sample.tokenLifetimes) Sample.noSessions
      Sample.loginAndRefresh).map (·.refreshed) = some [1] := by decide +kernel
  obtain ⟨w₁, hbefore, hrefreshed⟩ := Option.map_eq_some_iff.mp hmiddle
  obtain ⟨w₂, hrun⟩ := Option.isSome_iff_exists.mp hends
  rw [Transition.run_append, hbefore, Option.bind_some] at hrun
  exact ⟨w₁, w₂, hbefore, hrefreshed, hrun,
    (refresh_tokens_used_once Sample.noSessions_new hmeets hbefore hrun 1).1⟩

/-- Two requests ask for the denylist before either has written it. -/
theorem refresh_token_used_twice :
    (Transition.run (authStep Sample.tokenLifetimes) Sample.noSessions
        [.login 0, .mintLogin 0, .present 1 1, .present 2 1, .askDenylist 1, .askDenylist 2,
          .askCutoff 1, .askCutoff 2, .computeTtl 1, .deny 1, .mint 1, .computeTtl 2, .deny 2,
          .mint 2]).map (·.refreshed.count 1) = some 2 := by
  decide +kernel

end LlamaTrade
