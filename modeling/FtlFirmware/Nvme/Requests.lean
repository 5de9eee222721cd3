import Mathlib.Logic.Relation
import FtlFirmware.Nvme.Controller

/-!
# Event requests

The tables of event requests and events only change by four steps (`AerStep`): the mask is set, an
event is posted, a request is accepted, and a request is completed with an event. Each of them
keeps the tables sound (`Aer.Sound`): requests have distinct tickets, and the events posted are
those reported, followed by those in the queue. So does every call to the controller (`exec_aer`).
-/

namespace FtlFirmware

namespace Nvme

/-! ## The slots -/

namespace Aer

variable {aer : Aer} {i : ℕ}

/-- The number of slots for event requests that are free. -/
def freeSlots (aer : Aer) : ℕ :=
  (List.range aerMaxPending).countP fun i => !(aer.pending i).active

theorem findPending_none {active : Bool} (h : aer.findPending active = none) (i : ℕ)
    (hi : i < aerMaxPending) : (aer.pending i).active ≠ active := by
  intro heq
  have hfalse := List.find?_eq_none.1 h i (List.mem_range.2 hi)
  rw [heq] at hfalse
  exact hfalse (beq_self_eq_true _)

theorem findPending_some {active : Bool} (h : aer.findPending active = some i) :
    i < aerMaxPending ∧ (aer.pending i).active = active := by
  rw [findPending] at h
  have hbeq : (fun i => (aer.pending i).active == active) i = true :=
    @List.find?_some _ (fun i => (aer.pending i).active == active) _ _ h
  exact ⟨List.mem_range.1 (List.mem_of_find?_eq_some h), eq_of_beq hbeq⟩

/-- The event requests are the same. -/
structure SameRequests (aer aer' : Aer) : Prop where
  freeSlots : aer'.freeSlots = aer.freeSlots
  accepted : aer'.accepted = aer.accepted
  completed : aer'.completed = aer.completed

theorem SameRequests.trans {aer' aer'' : Aer} (h : aer.SameRequests aer')
    (h' : aer'.SameRequests aer'') : aer.SameRequests aer'' where
  freeSlots := h'.freeSlots.trans h.freeSlots
  accepted := h'.accepted.trans h.accepted
  completed := h'.completed.trans h.completed

/-- There is one more event request, which waits. -/
structure NewRequest (aer : Aer) (cid : UInt16) (aer' : Aer) : Prop where
  freeSlots : aer.freeSlots = aer'.freeSlots + 1
  accepted : aer'.accepted = aer.accepted ++ [cid]
  completed : aer'.completed = aer.completed

/-- There is no free slot if none is found. -/
theorem freeSlots_eq_zero (h : aer.findPending false = none) : aer.freeSlots = 0 := by
  refine List.countP_eq_zero.2 fun i hi => ?_
  have hne := findPending_none h i (List.mem_range.1 hi)
  rw [Bool.not_eq_true', Bool.not_eq_false]
  exact Bool.eq_true_of_not_eq_false hne

/-- Filling a free slot leaves one free slot less. -/
theorem freeSlots_fill {aer' : Aer} (hi : i < aerMaxPending)
    (hfree : (aer.pending i).active = false) (hi' : (aer'.pending i).active = true)
    (hother : ∀ j ≠ i, aer'.pending j = aer.pending j) : aer.freeSlots = aer'.freeSlots + 1 := by
  have hperm := List.perm_cons_erase (List.mem_range.2 hi)
  have hrest : ∀ j ∈ (List.range aerMaxPending).erase i,
      (!(aer.pending j).active) = true ↔ (!(aer'.pending j).active) = true := by
    intro j hj
    rw [hother j ((List.nodup_range.mem_erase_iff).1 hj).1]
  rw [freeSlots, freeSlots, hperm.countP_eq, hperm.countP_eq, List.countP_cons, List.countP_cons,
    List.countP_congr hrest, hfree, hi']
  rfl

end Aer

/-! ## The steps of the tables -/

/-- One change of the tables. -/
inductive AerStep (aer : Aer) : Aer → Prop
  | mask (m : UInt32) : AerStep aer { aer with eventMask := m }
  | post (e : AerEvent) : AerStep aer (aer.postAerEvent e).2
  | accept (cmd : Command) (cpl : Completion) : AerStep aer (aer.adminAsyncEvent cmd cpl).2
  | pop {cid : UInt16} {e : AerEvent} {aer' : Aer} :
      aer.popEvent = some (cid, e, aer') → AerStep aer aer'

/-- Changes of the tables, one after the other. -/
abbrev AerSteps : Aer → Aer → Prop := Relation.ReflTransGen AerStep

namespace Aer

/-- The queue of events, as a ring. -/
def ring (aer : Aer) : Ring AerEvent :=
  ⟨aer.eventQueue, aer.eventHead, aer.eventTail, aer.eventCount⟩

/-- The events that have been reported, in order. -/
def reported (aer : Aer) : List AerEvent := aer.completed.filterMap Prod.snd

/-- The tickets of the requests that have been completed. -/
def tickets (aer : Aer) : List ℕ := aer.completed.map Prod.fst

/-- The tables are sound. -/
structure Sound (aer : Aer) : Prop where
  ring : aer.ring.Valid aerQueueSize
  /-- The events posted are those reported, and those that wait. -/
  posted : aer.posted = aer.reported ++ aer.ring.contents aerQueueSize
  /-- A completion reports an event. -/
  event : ∀ r ∈ aer.completed, r.2.isSome
  /-- No request is completed twice. -/
  nodup : aer.tickets.Nodup
  /-- A request that has been completed has been accepted. -/
  accepted : ∀ k ∈ aer.tickets, k < aer.accepted.length
  /-- A request that waits has been accepted. -/
  waits : ∀ i < aerMaxPending, (aer.pending i).active = true →
    aer.accepted[(aer.pending i).ticket]? = some (aer.pending i).cid
  /-- A request that waits has not been completed. -/
  waiting : ∀ i < aerMaxPending, (aer.pending i).active = true →
    (aer.pending i).ticket ∉ aer.tickets
  /-- A request waits in one slot. -/
  distinct : ∀ i < aerMaxPending, ∀ j < aerMaxPending, (aer.pending i).active = true →
    (aer.pending j).active = true → (aer.pending i).ticket = (aer.pending j).ticket → i = j

namespace Sound

variable {aer aer' : Aer}

theorem init : Aer.init.Sound where
  ring := ⟨by decide, by decide, by decide⟩
  posted := rfl
  event := fun _ hr => absurd hr List.not_mem_nil
  nodup := List.nodup_nil
  accepted := fun _ hk => absurd hk List.not_mem_nil
  waits := fun _ _ hn => Bool.noConfusion hn
  waiting := fun _ _ hn => Bool.noConfusion hn
  distinct := fun _ _ _ _ hn => Bool.noConfusion hn

/-- An event is posted to the end of the queue, if it is accepted. -/
theorem post (h : aer.Sound) (e : AerEvent) : (aer.postAerEvent e).2.Sound := by
  rw [postAerEvent]
  by_cases hmask : aer.masked e
  · rw [if_pos hmask]
    exact h
  · rw [if_neg hmask]
    by_cases hfull : aer.eventCount ≥ aerQueueSize
    · rw [if_pos hfull]
      exact h
    · rw [if_neg hfull]
      have hroom : aer.ring.count < aerQueueSize := Nat.lt_of_not_ge hfull
      refine { h with ring := h.ring.push hroom e, posted := ?_ }
      show aer.posted ++ [e] = aer.reported ++ (aer.ring.push aerQueueSize e).contents aerQueueSize
      rw [Ring.contents_push h.ring hroom, h.posted, List.append_assoc]

/-- A request is accepted with a new ticket. -/
theorem accept (h : aer.Sound) (cmd : Command) (cpl : Completion) :
    (aer.adminAsyncEvent cmd cpl).2.Sound := by
  rw [adminAsyncEvent]
  cases hfree : aer.findPending false with
  | none => exact h
  -- The request goes to the slot `i`, with a ticket that is new; the other slots stay.
  | some i =>
    dsimp only
    have hold : ∀ j < aerMaxPending, j ≠ i →
        Function.update aer.pending i ⟨true, cmd.cid, aer.accepted.length⟩ j = aer.pending j :=
      fun j _ hj => Function.update_of_ne hj _ _
    have hlt : ∀ j < aerMaxPending, (aer.pending j).active = true →
        (aer.pending j).ticket < aer.accepted.length := fun j hj hactive =>
      (List.getElem?_eq_some_iff.1 (h.waits j hj hactive)).1
    refine { h with accepted := fun k hk => ?_, waits := fun j hj => ?_, waiting := fun j hj => ?_,
                    distinct := fun j hj k hk => ?_ }
    · dsimp only
      rw [List.length_append]
      exact Nat.lt_add_right _ (h.accepted k hk)
    · dsimp only
      by_cases hji : j = i
      · subst hji
        rw [Function.update_self]
        intro _
        exact List.getElem?_concat_length
      · rw [hold j hj hji]
        intro hactive
        rw [List.getElem?_append_left (hlt j hj hactive)]
        exact h.waits j hj hactive
    · dsimp only
      by_cases hji : j = i
      · subst hji
        rw [Function.update_self]
        intro _ hmem
        exact Nat.lt_irrefl _ (h.accepted _ hmem)
      · rw [hold j hj hji]
        exact h.waiting j hj
    · dsimp only
      by_cases hji : j = i
      · by_cases hki : k = i
        · exact fun _ _ _ => hji.trans hki.symm
        · subst hji
          rw [Function.update_self, hold k hk hki]
          intro _ hactive heq
          exact absurd (heq ▸ hlt k hk hactive) (Nat.lt_irrefl _)
      · rw [hold j hj hji]
        by_cases hki : k = i
        · subst hki
          rw [Function.update_self]
          intro hactive _ heq
          exact absurd (heq ▸ hlt j hj hactive) (Nat.lt_irrefl _)
        · rw [hold k hk hki]
          exact h.distinct j hj k hk

/-- The first request that waits is completed with the first event of the queue. -/
theorem pop {cid : UInt16} {e : AerEvent} (h : aer.Sound)
    (hpop : aer.popEvent = some (cid, e, aer')) : aer'.Sound := by
  rw [popEvent] at hpop
  by_cases hcount : aer.eventCount > 0
  · rw [if_pos hcount] at hpop
    -- The request is in the slot `i`; the other slots stay.
    obtain ⟨i, hfind, heq⟩ := Option.map_eq_some_iff.1 hpop
    obtain ⟨hi, hactive⟩ := findPending_some hfind
    obtain ⟨_, heq⟩ := Prod.mk.inj heq
    obtain ⟨_, rfl⟩ := Prod.mk.inj heq
    have hold : ∀ j < aerMaxPending, j ≠ i → Function.update aer.pending i
        { aer.pending i with active := false } j = aer.pending j :=
      fun j _ hj => Function.update_of_ne hj _ _
    have hticket : (aer.pending i).ticket < aer.accepted.length :=
      (List.getElem?_eq_some_iff.1 (h.waits i hi hactive)).1
    have htickets : (aer.completed ++
        [((aer.pending i).ticket, some (aer.eventQueue aer.eventHead))]).map Prod.fst =
          aer.tickets ++ [(aer.pending i).ticket] := List.map_append
    refine ⟨h.ring.pop hcount, ?_, fun r hr => ?_, ?_, fun k hk => ?_, fun j hj => ?_,
      fun j hj => ?_, fun j hj k hk => ?_⟩
    · show aer.posted = (aer.completed ++ _).filterMap Prod.snd ++
        (aer.ring.pop aerQueueSize).contents aerQueueSize
      rw [List.filterMap_append, h.posted, Ring.contents_pop h.ring hcount, List.append_assoc]
      rfl
    · rcases List.mem_append.1 hr with hr | hr
      · exact h.event r hr
      · rw [List.mem_singleton.1 hr]
        rfl
    · rw [tickets, htickets]
      exact List.nodup_append.2 ⟨h.nodup, List.nodup_singleton _, fun a ha b hb => by
        rw [List.mem_singleton.1 hb]
        exact fun heq => h.waiting i hi hactive (heq ▸ ha)⟩
    · rw [tickets, htickets] at hk
      rcases List.mem_append.1 hk with hk | hk
      · exact h.accepted k hk
      · rw [List.mem_singleton.1 hk]
        exact hticket
    · dsimp only
      by_cases hji : j = i
      · subst hji
        rw [Function.update_self]
        exact fun hn => Bool.noConfusion hn
      · rw [hold j hj hji]
        exact h.waits j hj
    · dsimp only
      by_cases hji : j = i
      · subst hji
        rw [Function.update_self]
        exact fun hn => Bool.noConfusion hn
      · rw [hold j hj hji]
        intro hactive' hmem
        rw [tickets, htickets] at hmem
        rcases List.mem_append.1 hmem with hmem | hmem
        · exact h.waiting j hj hactive' hmem
        · exact hji (h.distinct j hj i hi hactive' hactive (List.mem_singleton.1 hmem))
    · dsimp only
      by_cases hji : j = i
      · subst hji
        rw [Function.update_self]
        exact fun hn => Bool.noConfusion hn
      · rw [hold j hj hji]
        by_cases hki : k = i
        · subst hki
          rw [Function.update_self]
          exact fun _ hn => Bool.noConfusion hn
        · rw [hold k hk hki]
          exact h.distinct j hj k hk
  · rw [if_neg hcount] at hpop
    cases hpop

/-- The request that is completed has been accepted, with the command identifier given. -/
theorem pop_completed {cid : UInt16} {e : AerEvent} (h : aer.Sound)
    (hpop : aer.popEvent = some (cid, e, aer')) :
    aer'.accepted = aer.accepted ∧
      ∃ k, aer.accepted[k]? = some cid ∧ aer'.completed = aer.completed ++ [(k, some e)] := by
  rw [popEvent] at hpop
  split_ifs at hpop
  obtain ⟨i, hfind, heq⟩ := Option.map_eq_some_iff.1 hpop
  obtain ⟨hi, hactive⟩ := findPending_some hfind
  obtain ⟨rfl, rfl, rfl⟩ : _ ∧ _ ∧ _ = aer' := by
    simpa only [Prod.mk.injEq] using heq
  exact ⟨rfl, _, h.waits i hi hactive, rfl⟩

/-- Every change of the tables keeps them sound. -/
theorem step (h : aer.Sound) (hstep : AerStep aer aer') : aer'.Sound := by
  cases hstep with
  | mask m => exact { h with }
  | post e => exact h.post e
  | accept cmd cpl => exact h.accept cmd cpl
  | pop hpop => exact h.pop hpop

theorem steps (h : aer.Sound) (hsteps : AerSteps aer aer') : aer'.Sound := by
  induction hsteps with
  | refl => exact h
  | tail _ hstep ih => exact ih.step hstep

end Sound

end Aer

/-! ## The controller -/

namespace Ctrl

open Relation.ReflTransGen (refl single)

variable {c c' : Ctrl} {cmd : Command} {fuel : ℕ} {ftl ftl' : Ftl}

theorem adminFwActivate_aer (fw : Firmware) (aer : Aer) (cmd : Command) (cpl : Completion) :
    AerSteps aer (fw.adminFwActivate aer cmd cpl).2.2 := by
  rw [Firmware.adminFwActivate]
  dsimp only
  split_ifs
  all_goals first
    | exact refl
    | exact single (.post _)

theorem adminSetFeatures_aer (c : Ctrl) (cmd : Command) (cpl : Completion) :
    AerSteps c.aer (c.adminSetFeatures cmd cpl).2.aer := by
  rw [adminSetFeatures]
  dsimp only
  split_ifs
  all_goals first
    | exact refl
    | exact single (.mask _)

/-- An admin command changes the tables step by step. -/
theorem processAdminCmd_aer (c : Ctrl) (cmd : Command) :
    AerSteps c.aer (c.processAdminCmd cmd).2.aer := by
  have hite {p : Prop} [Decidable p] {r r' : Completion × Ctrl} (h : AerSteps c.aer r.2.aer)
      (h' : AerSteps c.aer r'.2.aer) : AerSteps c.aer (if p then r else r').2.aer := by
    split
    · exact h
    · exact h'
  rw [processAdminCmd]
  -- The operation codes, in the order in which they are compared.
  refine hite refl (hite refl (hite refl (hite refl (hite refl (hite refl (hite refl ?_))))))
  refine hite (adminSetFeatures_aer _ _ _) (hite refl ?_)
  refine hite (single (.accept _ _)) (hite refl ?_)
  exact hite (adminFwActivate_aer _ _ _ _) (hite refl (hite refl refl))

/-- So do the commands of the admin queue. -/
theorem processAdmin_aer (h : c.processAdmin fuel = some c') : AerSteps c.aer c'.aer := by
  induction fuel generalizing c with
  | zero => cases h
  | succ fuel ih =>
    rw [processAdmin] at h
    split at h
    · cases h
      exact refl
    · next cmd sq _ =>
      dsimp only at h
      have hcmd := processAdminCmd_aer { c with adminSq := sq } cmd
      by_cases hsusp : ({ c with adminSq := sq }.processAdminCmd cmd).1.rsvd1 = aerSuspended
      · rw [if_pos hsusp] at h
        exact hcmd.trans (ih h)
      · rw [if_neg hsusp] at h
        split at h
        · cases h
        · have hrest := ih h
          exact hcmd.trans hrest

/-- The commands of the I/O queue leave the tables alone. -/
theorem processIo_aer {ftlFuel count count' : ℕ}
    (h : c.processIo ftlFuel fuel count ftl = some (count', c', ftl')) : c'.aer = c.aer := by
  induction fuel generalizing c count ftl with
  | zero => cases h
  | succ fuel ih =>
    rw [processIo] at h
    split at h
    · cases h
      rfl
    · split at h
      · cases h
      · split at h
        · cases h
        · have hrest := ih h
          exact hrest

/-- Requests are completed step by step. -/
theorem aerTryComplete_aer {n : ℕ} (h : c.aerTryComplete n = some c') :
    AerSteps c.aer c'.aer := by
  induction n generalizing c with
  | zero =>
    cases h
    exact refl
  | succ n ih =>
    rw [aerTryComplete] at h
    split at h
    · cases h
      exact refl
    · next cid e aer hpop =>
      dsimp only at h
      split at h
      · cases h
      · exact .head (.pop hpop) (ih h)

/-- The temperatures post at most two events. -/
theorem tempCheckThresholds_aer (c : Ctrl) : AerSteps c.aer c.tempCheckThresholds.aer := by
  rw [tempCheckThresholds]
  dsimp only
  split_ifs
  · exact .tail (single (.post tempEvent)) (.post tempEvent)
  · exact single (.post tempEvent)
  · exact single (.post tempEvent)
  · exact refl

theorem tickTemperature_aer (c : Ctrl) (ioActivity : ℕ) :
    AerSteps c.aer (c.tickTemperature ioActivity).aer := by
  rw [tickTemperature]
  dsimp only
  split_ifs
  · rw [updateTemperature]
    dsimp only
    generalize List.foldl _ _ _ = r
    have hsteps := tempCheckThresholds_aer { c with temps := r.1, rand := r.2 }
    exact hsteps
  · exact refl

/-- Every call to the controller changes the tables step by step. -/
theorem exec_aer {s s' : Ctrl × Ftl} {call : CtrlCall} (h : ctrlExec fuel s call = some s') :
    AerSteps s.1.aer s'.1.aer := by
  cases call with
  | hostWrite qid i cmd =>
    cases h
    dsimp only
    rw [hostWrite]
    split <;> exact refl
  | sqDoorbell qid value =>
    obtain ⟨c, hc, rfl⟩ := Option.map_eq_some_iff.1 h
    rw [sqDoorbell] at hc
    split at hc <;>
    · obtain ⟨_, _, rfl⟩ := Option.map_eq_some_iff.1 hc
      exact refl
  | cqDoorbell qid value =>
    obtain ⟨c, hc, rfl⟩ := Option.map_eq_some_iff.1 h
    rw [cqDoorbell] at hc
    split at hc <;>
    · obtain ⟨_, _, rfl⟩ := Option.map_eq_some_iff.1 hc
      exact refl
  | writeCc value =>
    cases h
    exact refl
  | postAerEvent e =>
    cases h
    exact single (.post e)
  | process =>
    have hprocess : s.1.process fuel s.2 = some s' := h
    rw [process] at hprocess
    split at hprocess
    · cases hprocess
      exact refl
    · split at hprocess
      · cases hprocess
      · next c₁ hadmin =>
        dsimp only at hprocess
        split at hprocess
        · cases hprocess
        · next count c₂ ftl' hio =>
          obtain ⟨c₃, haer, rfl⟩ := Option.map_eq_some_iff.1 hprocess
          -- The I/O commands have no part in it.
          have hsame : c₂.aer = c₁.aer := by
            split_ifs at hio
            · exact processIo_aer hio
            · cases hio
              rfl
          have h₁ := processAdmin_aer hadmin
          have h₂ := aerTryComplete_aer haer
          rw [hsame] at h₂
          exact (h₁.trans h₂).trans (tickTemperature_aer c₃ count)

end Ctrl

end Nvme

end FtlFirmware
