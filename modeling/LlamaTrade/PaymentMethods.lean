import LlamaTrade.PythonUuid
import LlamaTrade.TransitionRuns
import Mathlib.Data.List.Nodup

/-!
# Payment methods

The saved cards of one tenant (`payment_method_service.py`, `routers/webhooks.py`): requests that
attach, delete and mark them, and the webhooks that report the same from Stripe. A request reads,
asks Stripe and writes in separate steps, so others come in between. Each of them has its own rule
for which row becomes the default; a run in which every write still finds what its request has read
keeps exactly one.
-/

namespace LlamaTrade

/-- A row of `payment_methods`. -/
@[ext]
structure PaymentRow where
  id : UUID
  stripeId : String
  createdAt : ℤ
  isDefault : Bool
  deriving DecidableEq

/-- Where a request or a webhook is. -/
inductive PaymentTask where
  /-- `attach_payment_method` after Stripe, or `_handle_payment_method_attached` for a new card. -/
  | attaching (id : UUID) (stripeId : String) (createdAt : ℤ)
  /-- The same with `is_default`. -/
  | inserting (row : PaymentRow)
  /-- `delete_payment_method` with the row that it has read. -/
  | deleting (row : PaymentRow)
  /-- It has deleted the default. -/
  | reselecting
  | marking (choice : PaymentRow)
  /-- `set_default_payment_method` after Stripe. -/
  | defaulting (id : UUID)
  deriving DecidableEq

/-- A default was deleted and the next one is not marked yet. -/
def PaymentTask.isOwing : PaymentTask → Bool
  | reselecting => true
  | marking _ => true
  | _ => false

structure PaymentWorld where
  rows : List PaymentRow
  tasks : ℕ → Option PaymentTask

inductive PaymentAction where
  | attach (t : ℕ) (id : UUID) (stripeId : String) (createdAt : ℤ)
  | attachedWebhook (t : ℕ) (id : UUID) (stripeId : String) (createdAt : ℤ)
  /-- The rows are read for `is_default`. -/
  | read (t : ℕ)
  /-- The insert and its commit. -/
  | insert (t : ℕ)
  | delete (t : ℕ) (id : UUID)
  /-- The delete and its commit. -/
  | remove (t : ℕ)
  /-- The newest row is read. -/
  | reselect (t : ℕ) (id : UUID)
  | mark (t : ℕ)
  | setDefault (t : ℕ) (id : UUID)
  /-- The updates of `set_default_payment_method` and their commit. -/
  | write (t : ℕ)
  | detachedWebhook (stripeId : String)
  /-- A request that raises before it has written: Stripe fails, or the only card is in use. -/
  | fail (t : ℕ)

namespace PaymentWorld

variable (w : PaymentWorld)

def fresh : PaymentWorld := ⟨[], fun _ => none⟩

def setTask (t : ℕ) (task : Option PaymentTask) : PaymentWorld :=
  { w with tasks := Function.update w.tasks t task }

def findRow (id : UUID) : Option PaymentRow := w.rows.find? fun row => row.id = id

/-- The row can be inserted: neither of its keys is there. -/
def insertable (row : PaymentRow) : Bool :=
  w.rows.all fun other => other.id ≠ row.id ∧ other.stripeId ≠ row.stripeId

/-- The rows with one more mark. -/
def marked (id : UUID) : List PaymentRow :=
  w.rows.map fun row => if row.id = id then { row with isDefault := true } else row

/-- The rows with one mark only. -/
def onlyMarked (id : UUID) : List PaymentRow :=
  w.rows.map fun row => { row with isDefault := row.id = id }

def step : PaymentAction → Option PaymentWorld
  | .attach t id stripeId createdAt =>
    match w.tasks t with
    | none => some (w.setTask t (some (.attaching id stripeId createdAt)))
    | some _ => none
  | .attachedWebhook t id stripeId createdAt =>
    match w.tasks t with
    | none =>
      if w.rows.any (·.stripeId = stripeId) then some w
      else some (w.setTask t (some (.attaching id stripeId createdAt)))
    | some _ => none
  | .read t =>
    match w.tasks t with
    | some (.attaching id stripeId createdAt) =>
      some (w.setTask t (some (.inserting ⟨id, stripeId, createdAt, w.rows.isEmpty⟩)))
    | _ => none
  | .insert t =>
    match w.tasks t with
    | some (.inserting row) =>
      if w.insertable row then some { w.setTask t none with rows := w.rows ++ [row] }
      else some (w.setTask t none)
    | _ => none
  | .delete t id =>
    match w.tasks t with
    | none => some (w.setTask t ((w.findRow id).map .deleting))
    | some _ => none
  | .remove t =>
    match w.tasks t with
    | some (.deleting row) =>
      some { w.setTask t (if row.isDefault then some .reselecting else none) with
        rows := w.rows.filter fun other => other.id ≠ row.id }
    | _ => none
  | .reselect t id =>
    match w.tasks t with
    | some .reselecting =>
      match w.findRow id with
      | some row =>
        if w.rows.all fun other => other.createdAt ≤ row.createdAt then
          some (w.setTask t (some (.marking row)))
        else none
      | none => if w.rows.isEmpty then some (w.setTask t none) else none
    | _ => none
  | .mark t =>
    match w.tasks t with
    -- A row that is marked already is not written; one that is gone raises.
    | some (.marking choice) =>
      some { w.setTask t none with rows := if choice.isDefault then w.rows else w.marked choice.id }
    | _ => none
  | .setDefault t id =>
    match w.tasks t with
    | none => some (w.setTask t ((w.findRow id).map fun row => .defaulting row.id))
    | some _ => none
  | .write t =>
    match w.tasks t with
    | some (.defaulting id) =>
      -- If the row is gone, the last update raises and the first one is rolled back.
      some { w.setTask t none with
        rows := if (w.findRow id).isSome then w.onlyMarked id else w.rows }
    | _ => none
  | .detachedWebhook stripeId => some { w with
      rows := w.rows.filter fun row => row.stripeId ≠ stripeId }
  | .fail t =>
    match w.tasks t with
    | some (.attaching ..) | some (.inserting _) | some (.deleting _) | some (.defaulting _) =>
      some (w.setTask t none)
    | _ => none

/-- What the request has read is still so when it writes, and Stripe does not take the default away
while there are other cards. -/
def StillSo : PaymentAction → Prop
  | .insert t => ∀ row, w.tasks t = some (.inserting row) → (row.isDefault = true ↔ w.rows = [])
  | .remove t => ∀ row, w.tasks t = some (.deleting row) →
      row ∈ w.rows ∨ row.isDefault = false ∧ ∀ other ∈ w.rows, other.id ≠ row.id
  | .mark t => ∀ choice, w.tasks t = some (.marking choice) →
      choice ∈ w.rows ∧ ∀ row ∈ w.rows, row.isDefault = true → row = choice
  | .detachedWebhook stripeId => ∀ row ∈ w.rows, row.stripeId = stripeId → row.isDefault = true →
      w.rows = [row]
  | _ => True

/-- Exactly one row is marked. -/
def OneDefault : Prop :=
  ∃ row ∈ w.rows, row.isDefault = true ∧ ∀ other ∈ w.rows, other.isDefault = true → other = row

/-- The ids are unique, at most one row is marked, and one is unless a request owes the mark. -/
structure DefaultsKept : Prop where
  ids : (w.rows.map (·.id)).Nodup
  atMostOne : ∀ row ∈ w.rows, ∀ other ∈ w.rows, row.isDefault = true → other.isDefault = true →
    other = row
  someDefault : w.rows ≠ [] → (∃ row ∈ w.rows, row.isDefault = true) ∨
    ∃ t task, w.tasks t = some task ∧ task.isOwing = true

/-! ## Steps -/

variable {w} {w' : PaymentWorld} {t : ℕ} {row : PaymentRow}

theorem kept_fresh : fresh.DefaultsKept :=
  ⟨List.nodup_nil, fun _ h => absurd h List.not_mem_nil, fun h => absurd rfl h⟩

namespace DefaultsKept

theorem eq_of_id (h : w.DefaultsKept) {other : PaymentRow} (hrow : row ∈ w.rows)
    (hother : other ∈ w.rows) (hid : other.id = row.id) : other = row :=
  List.inj_on_of_nodup_map h.ids hother hrow hid

/-- A request that owes nothing moves on, and every marked row stays. -/
theorem advance (h : w.DefaultsKept) {rows : List PaymentRow} {task : Option PaymentTask}
    (hfree : ∀ old, w.tasks t = some old → old.isOwing = false) (hids : (rows.map (·.id)).Nodup)
    (hone : ∀ row ∈ rows, ∀ other ∈ rows, row.isDefault = true → other.isDefault = true → other = row)
    (hsome : rows ≠ [] → (∃ row ∈ rows, row.isDefault = true) ∨
      w.rows ≠ [] ∧ ∀ row ∈ w.rows, row.isDefault = true → row ∈ rows) :
    DefaultsKept { w.setTask t task with rows := rows } := by
  refine ⟨hids, hone, fun hne => ?_⟩
  obtain hdefault | ⟨hold, hstays⟩ := hsome hne
  · exact .inl hdefault
  · obtain ⟨row, hrow, hdefault⟩ | ⟨t', old, htask, howing⟩ := h.someDefault hold
    · exact .inl ⟨row, hstays row hrow hdefault, hdefault⟩
    · refine .inr ⟨t', old, ?_, howing⟩
      have hne : t' ≠ t := by
        rintro rfl
        simp [hfree old htask] at howing
      exact (Function.update_of_ne hne _ _).trans htask

theorem setTask (h : w.DefaultsKept) (task : Option PaymentTask)
    (hfree : ∀ old, w.tasks t = some old → old.isOwing = false) : (w.setTask t task).DefaultsKept :=
  h.advance hfree h.ids h.atMostOne fun hne => .inr ⟨hne, fun _ hrow _ => hrow⟩

theorem insert (h : w.DefaultsKept) (htask : w.tasks t = some (.inserting row))
    (hok : row.isDefault = true ↔ w.rows = []) (hnew : w.insertable row = true) :
    DefaultsKept { w.setTask t none with rows := w.rows ++ [row] } := by
  simp only [insertable, List.all_eq_true, decide_eq_true_eq] at hnew
  refine h.advance (fun old hold => by cases htask.symm.trans hold; rfl) ?_ ?_ fun _ => ?_
  · rw [List.map_append]
    refine h.ids.append (List.nodup_singleton _) fun id hid hid' => ?_
    obtain ⟨other, hother, rfl⟩ := List.mem_map.mp hid
    exact (hnew other hother).1 (List.mem_singleton.mp hid')
  · intro a ha b hb hadefault hbdefault
    simp only [List.mem_append, List.mem_singleton] at ha hb
    obtain ha | rfl := ha <;> obtain hb | rfl := hb
    · exact h.atMostOne a ha b hb hadefault hbdefault
    · exact absurd ha (hok.mp hbdefault ▸ List.not_mem_nil)
    · exact absurd hb (hok.mp hadefault ▸ List.not_mem_nil)
    · rfl
  · by_cases hempty : w.rows = []
    · exact .inl ⟨row, by simp, hok.mpr hempty⟩
    · exact .inr ⟨hempty, fun other hother _ => List.mem_append_left _ hother⟩

theorem remove (h : w.DefaultsKept) (htask : w.tasks t = some (.deleting row))
    (hok : row ∈ w.rows ∨ row.isDefault = false ∧ ∀ other ∈ w.rows, other.id ≠ row.id) :
    DefaultsKept { w.setTask t (if row.isDefault then some .reselecting else none) with
      rows := w.rows.filter fun other => other.id ≠ row.id } := by
  have hids := h.ids.sublist (List.filter_sublist.map _ : List.Sublist
    ((w.rows.filter fun other => other.id ≠ row.id).map (·.id)) _)
  have hone : ∀ a ∈ w.rows.filter (fun other => other.id ≠ row.id),
      ∀ b ∈ w.rows.filter (fun other => other.id ≠ row.id), a.isDefault = true →
        b.isDefault = true → b = a := fun a ha b hb =>
    h.atMostOne a (List.mem_of_mem_filter ha) b (List.mem_of_mem_filter hb)
  cases hdefault : row.isDefault with
  | true => exact ⟨hids, hone, fun _ => .inr ⟨t, .reselecting, Function.update_self .., rfl⟩⟩
  | false =>
    refine h.advance (fun old hold => by cases htask.symm.trans hold; rfl) hids hone fun hne => .inr ?_
    refine ⟨fun hempty => hne (by rw [hempty]; rfl), fun other hother hmarked => ?_⟩
    refine List.mem_filter.mpr ⟨hother, ?_⟩
    rw [decide_eq_true_iff]
    intro hid
    obtain hrow | ⟨-, hgone⟩ := hok
    · rw [h.eq_of_id hrow hother hid, hdefault] at hmarked
      cases hmarked
    · exact hgone other hother hid

theorem mark (h : w.DefaultsKept) {choice : PaymentRow} (hchoice : choice ∈ w.rows)
    (honly : ∀ row ∈ w.rows, row.isDefault = true → row = choice) :
    DefaultsKept { w.setTask t none with
      rows := if choice.isDefault then w.rows else w.marked choice.id } := by
  cases hdefault : choice.isDefault with
  | true => exact ⟨h.ids, h.atMostOne, fun _ => .inl ⟨choice, hchoice, hdefault⟩⟩
  | false =>
    have hmarked : ∀ row ∈ w.marked choice.id, row.isDefault = true →
        row = { choice with isDefault := true } := by
      intro row hrow hrowDefault
      obtain ⟨old, hold, rfl⟩ := List.mem_map.mp hrow
      by_cases hid : old.id = choice.id
      · rw [if_pos hid, h.eq_of_id hchoice hold hid]
      · rw [if_neg hid] at hrowDefault
        rw [honly old hold hrowDefault, hdefault] at hrowDefault
        cases hrowDefault
    refine ⟨?_, fun a ha b hb hadefault hbdefault => ?_, fun _ => .inl ?_⟩
    · change ((w.marked choice.id).map (·.id)).Nodup
      rw [marked, List.map_map, List.map_congr_left (g := (·.id)) fun r _ => by
        dsimp only [Function.comp]
        split <;> rfl]
      exact h.ids
    · rw [hmarked a ha hadefault, hmarked b hb hbdefault]
    · exact ⟨{ choice with isDefault := true },
        List.mem_map.mpr ⟨choice, hchoice, by simp⟩, rfl⟩

theorem write (h : w.DefaultsKept) {id : UUID} (htask : w.tasks t = some (.defaulting id)) :
    DefaultsKept { w.setTask t none with
      rows := if (w.findRow id).isSome then w.onlyMarked id else w.rows } := by
  cases hfound : w.findRow id with
  | none => exact h.setTask none fun old hold => by cases htask.symm.trans hold; rfl
  | some row =>
    have hrow := List.mem_of_find?_eq_some hfound
    have hid : row.id = id := by simpa using List.find?_some hfound
    refine ⟨?_, fun a ha b hb hadefault hbdefault => ?_, fun _ => .inl ?_⟩
    · change ((w.onlyMarked id).map (·.id)).Nodup
      rw [onlyMarked, List.map_map]
      exact h.ids
    · obtain ⟨a', ha', rfl⟩ := List.mem_map.mp ha
      obtain ⟨b', hb', rfl⟩ := List.mem_map.mp hb
      simp only [decide_eq_true_eq] at hadefault hbdefault
      rw [h.eq_of_id ha' hb' (hbdefault.trans hadefault.symm)]
    · exact ⟨{ row with isDefault := row.id = id }, List.mem_map.mpr ⟨row, hrow, rfl⟩, by simpa using hid⟩

theorem detach (h : w.DefaultsKept) {stripeId : String}
    (hok : ∀ row ∈ w.rows, row.stripeId = stripeId → row.isDefault = true → w.rows = [row]) :
    DefaultsKept { w with rows := w.rows.filter fun row => row.stripeId ≠ stripeId } := by
  refine ⟨h.ids.sublist (List.filter_sublist.map _), fun a ha b hb =>
    h.atMostOne a (List.mem_of_mem_filter ha) b (List.mem_of_mem_filter hb), fun hne => ?_⟩
  have hold : w.rows ≠ [] := fun hempty => hne (by rw [hempty]; rfl)
  obtain ⟨row, hrow, hdefault⟩ | howing := h.someDefault hold
  · by_cases hid : row.stripeId = stripeId
    · exact absurd (show w.rows.filter (fun row => row.stripeId ≠ stripeId) = [] by
        rw [hok row hrow hid hdefault]; simp [hid]) hne
    · exact .inl ⟨row, List.mem_filter.mpr ⟨hrow, by simpa using hid⟩, hdefault⟩
  · exact .inr howing

end DefaultsKept

/-- A step that finds what its request has read. -/
theorem DefaultsKept.after (h : w.DefaultsKept) {action : PaymentAction} (hok : w.StillSo action)
    (hstep : w.step action = some w') : w'.DefaultsKept := by
  cases action with
  | attach t id stripeId createdAt =>
    simp only [step] at hstep
    split at hstep
    · cases hstep
      exact h.setTask _ (by simp [*])
    · cases hstep
  | attachedWebhook t id stripeId createdAt =>
    simp only [step] at hstep
    split at hstep
    · split at hstep
      · cases hstep
        exact h
      · cases hstep
        exact h.setTask _ (by simp [*])
    · cases hstep
  | read t =>
    simp only [step] at hstep
    split at hstep
    · rename_i htask
      cases hstep
      exact h.setTask _ fun old hold => by cases htask.symm.trans hold; rfl
    · cases hstep
  | insert t =>
    simp only [step] at hstep
    split at hstep
    · rename_i row htask
      split at hstep
      · cases hstep
        exact h.insert htask (hok row htask) (by assumption)
      · cases hstep
        exact h.setTask _ fun old hold => by cases htask.symm.trans hold; rfl
    · cases hstep
  | delete t id =>
    simp only [step] at hstep
    split at hstep
    · cases hstep
      exact h.setTask _ (by simp [*])
    · cases hstep
  | remove t =>
    simp only [step] at hstep
    split at hstep
    · rename_i row htask
      cases hstep
      exact h.remove htask (hok row htask)
    · cases hstep
  | reselect t id =>
    simp only [step] at hstep
    split at hstep
    · split at hstep
      · split at hstep
        · cases hstep
          exact ⟨h.ids, h.atMostOne, fun _ => .inr ⟨t, _, Function.update_self .., rfl⟩⟩
        · cases hstep
      · split at hstep
        · rename_i hempty
          cases hstep
          exact ⟨h.ids, h.atMostOne, fun hne => absurd (List.isEmpty_iff.mp hempty) hne⟩
        · cases hstep
    · cases hstep
  | mark t =>
    simp only [step] at hstep
    split at hstep
    · rename_i choice htask
      cases hstep
      obtain ⟨hchoice, honly⟩ := hok choice htask
      exact h.mark hchoice honly
    · cases hstep
  | setDefault t id =>
    simp only [step] at hstep
    split at hstep
    · cases hstep
      exact h.setTask _ (by simp [*])
    · cases hstep
  | write t =>
    simp only [step] at hstep
    split at hstep
    · rename_i htask
      cases hstep
      exact h.write htask
    · cases hstep
  | detachedWebhook stripeId =>
    cases hstep
    exact h.detach hok
  | fail t =>
    simp only [step] at hstep
    split at hstep
    all_goals first
      | cases hstep
        rename_i htask
        exact h.setTask _ fun old hold => by cases htask.symm.trans hold; rfl
      | cases hstep

/-! ## Runs -/

end PaymentWorld

namespace Sample

/-- A card is attached by a request. -/
def oneCard : List PaymentAction := [.attach 0 1 "pm_a" 10, .read 0, .insert 0]

/-- Two cards are attached, and the first one, the default, is detached in Stripe. -/
def detachedDefault : List PaymentAction :=
  oneCard ++ [.attach 0 2 "pm_b" 20, .read 0, .insert 0, .detachedWebhook "pm_a"]

end Sample

end LlamaTrade
