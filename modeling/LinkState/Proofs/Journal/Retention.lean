import LinkState.Journal
import Mathlib

/-! What a journal still has of the events that it let in. It drops events only when it has one more
than its capacity, and then all but half of its capacity: from there on the number kept climbs
back to the capacity, over and over. -/

namespace LinkState

namespace Journal

def kept (n : Nat) : Nat := if n ≤ 10000 then n else 5000 + (n - 10001) % 5001

theorem kept_le (n : Nat) : kept n ≤ n := by
  rw [kept]
  split <;> omega

theorem kept_le_capacity (n : Nat) : kept n ≤ capacity := by
  rw [kept, capacity]
  split <;> omega

theorem min_le_kept (n : Nat) : min n 5000 ≤ kept n := by
  rw [kept]
  split <;> omega

/-- One event more: all but half of the capacity goes when the capacity is exceeded. -/
theorem kept_succ (n : Nat) :
    kept (n + 1) = if capacity < kept n + 1 then capacity / 2 else kept n + 1 := by
  simp only [kept, capacity]
  split_ifs <;> omega

/-- The journal can be met, by a caller or by a subscriber, when these events have been let in since
the last reset. A subscriber may make all calls itself, and may stop the publisher. -/
inductive Admitted : Journal → List Event → Prop
  | reset (j : Journal) : Admitted j.reset []
  /-- A whole call, whatever subscribers drop and wherever they stop it. -/
  | publish {j es} (h : Admitted j es) (react : Reactions) (e : Event) :
      Admitted (publishTo react e j).2 (if e.level.below j.minLevel then es else es ++ [e])
  /-- What the first subscriber meets; what subscribers do while they are called comes next. -/
  | store {j es} (h : Admitted j es) {e : Event} (hl : e.level.below j.minLevel = false) :
      Admitted (j.store e) (es ++ [e])
  | note {j es} (h : Admitted j es) (s : Subscription) (e : Event) : Admitted (j.note s e) es
  | subscribe {j es} (h : Admitted j es) (f : EventFilter) (drops : Option Nat)
      (stops : Option String) : Admitted (j.subscribe f drops stops).2 es
  | unsubscribe {j es} (h : Admitted j es) (id : Nat) : Admitted (j.unsubscribe id) es
  | setMinLevel {j es} (h : Admitted j es) (l : Level) : Admitted (j.setMinLevel l) es

variable {j : Journal} {es : List Event} {e : Event}

/-! ### The end of a list -/

section End

variable {α : Type} {l : List α} {m n : Nat}

theorem rtake_rtake (h : m ≤ n) : (l.rtake n).rtake m = l.rtake m := by
  simp only [List.rtake_eq_reverse_take_reverse, List.reverse_reverse, List.take_take,
    Nat.min_eq_left h]

theorem length_rtake (h : n ≤ l.length) : (l.rtake n).length = n := by
  rw [List.rtake, List.length_drop]
  omega

theorem rtake_suffix_rtake (h : m ≤ n) : l.rtake m <:+ l.rtake n :=
  rtake_rtake (l := l) h ▸ List.drop_suffix _ _

theorem toList_extract_size (xs : Array α) (n : Nat) :
    (xs.extract (xs.size - n) xs.size).toList = xs.toList.rtake n := by
  rw [Array.toList_extract, List.extract_eq_take_drop, List.rtake, ← Array.length_toList,
    ← List.length_drop, List.take_length]

end End

/-! ### What the calls keep -/

def Newest (j : Journal) (es : List Event) : Prop := j.events.toList = es.rtake (kept es.length)

theorem Newest.size (h : j.Newest es) : j.events.size = kept es.length := by
  rw [← Array.length_toList, h, length_rtake (kept_le _)]

theorem Newest.store (h : j.Newest es) (e : Event) : (j.store e).Newest (es ++ [e]) := by
  have hpush : (j.events.push e).toList = (es ++ [e]).rtake (kept es.length + 1) := by
    rw [Array.toList_push, h, List.rtake_concat_succ]
  have hsize : (j.events.push e).size = kept es.length + 1 := by
    rw [Array.size_push, h.size]
  rw [Newest, Journal.store, List.length_append, List.length_singleton, kept_succ, ← hsize]
  split
  · next hfull =>
    have hhalf : capacity / 2 ≤ kept es.length + 1 :=
      (Nat.div_le_self ..).trans (hsize ▸ hfull.le)
    rw [toList_extract_size, hpush, rtake_rtake hhalf]
  · rw [hpush, hsize]

theorem call_events (react : Reactions) (s : Subscription) :
    (j.call react e s).2.events = j.events := by
  rw [call, foldl_unsubscribe]
  rfl

/-- Whatever subscribers do on a delivery, nothing is stored or lost. -/
theorem deliver_events (react : Reactions) (ss : List Subscription) (j : Journal) :
    (deliver react e ss j).2.events = j.events := by
  induction ss generalizing j with
  | nil => rfl
  | cons s ss ih =>
    have hcall := call_events (j := j) (e := e) react s
    rw [deliver]
    split
    · split
      · next hc => rwa [hc] at hcall
      · next hc => rw [ih, ← hcall, hc]
    · exact ih j

theorem Admitted.newest (h : j.Admitted es) : j.Newest es := by
  induction h with
  | reset j => rfl
  | @publish j es _ react e ih =>
    rw [publishTo]
    split
    · exact ih
    · rw [Newest, deliver_events]
      exact ih.store e
  | store _ _ ih => exact ih.store _
  | note _ _ _ ih => exact ih
  | subscribe _ _ _ _ ih => exact ih
  | unsubscribe _ _ ih => exact ih
  | setMinLevel _ _ ih => exact ih

/-- Of the events that were let in since the last reset a journal has the newest, as many as `kept`
says, whatever subscribers do: at most 10000 of them, and the newest 5000 always. -/
theorem Admitted.retained (h : j.Admitted es) :
    j.events.toList = es.rtake (kept es.length) ∧ j.events.size = kept es.length ∧
      j.events.size ≤ 10000 ∧ es.rtake (min es.length 5000) <:+ j.events.toList := by
  have hsize := h.newest.size
  refine ⟨h.newest, hsize, ?_, ?_⟩
  · rw [hsize]
    exact kept_le_capacity _
  · rw [h.newest]
    exact rtake_suffix_rtake (min_le_kept _)

/-- An event that no minimum level shuts out. -/
def alarm : Event := ⟨.error, "journal", "journal:alarm", "", none⟩

theorem alarm_not_below (m : Level) : alarm.level.below m = false := by
  cases m <;> rfl

/-- A journal after so many alarms, of which each stops its publisher. -/
def flooded : Nat → Journal
  | 0 => (empty.reset.subscribe default none (some "stop")).2
  | n + 1 => (publish alarm (flooded n)).2

theorem admitted_flooded (n : Nat) : (flooded n).Admitted (List.replicate n alarm) := by
  induction n with
  | zero => exact .subscribe (.reset _) _ _ _
  | succ n ih =>
    have hnext := ih.publish Subscription.reaction alarm
    rw [alarm_not_below, if_neg Bool.false_ne_true, ← List.replicate_succ'] at hnext
    exact hnext

/-- The first event over the capacity takes all but the newest half of it away. -/
theorem retained_flooded :
    (flooded 10001).Admitted (List.replicate 10001 alarm) ∧ (flooded 10000).events.size = 10000 ∧
      (flooded 10001).events.size = 5000 ∧ (flooded 15002).events.size = 5000 := by
  have hsize (n : Nat) : (flooded n).events.size = kept n := by
    rw [(admitted_flooded n).retained.2.1, List.length_replicate]
  exact ⟨admitted_flooded 10001, hsize 10000, hsize 10001, hsize 15002⟩

end Journal

end LinkState
