import Mathlib.Tactic

set_option autoImplicit false

/-! # Jobs that are begun again

A worker does jobs one after the other. A job is a list of writes to a store; when all of them have been
made the job is done, and when the worker is stopped before that it begins the job again, perhaps with
other writes. A write may be made twice, but where the later attempt makes up for the earlier ones
(`Absorbs`) the store is as if each job had been done once (`Consistent.store_eq`).
-/

namespace Redo

variable {σ ω : Type*} (apply : σ → ω → σ)

/-! ## Writes -/

/-- Nothing is left of `w` once `v` has been written. -/
def Overrides (v w : ω) : Prop := ∀ s, apply (apply s w) v = apply s v

def Commutes (v w : ω) : Prop := ∀ s, apply (apply s w) v = apply (apply s v) w

/-- Nothing is left of `w` once these have been written. -/
def Absorbs (ws : List ω) (w : ω) : Prop := ∀ s, ws.foldl apply (apply s w) = ws.foldl apply s

variable {apply}

/-- It is enough that one of the writes overrides `w`, if the others do too or do not mind it. -/
theorem absorbs_of_overrides {ws : List ω} {w : ω}
    (hall : ∀ v ∈ ws, Overrides apply v w ∨ Commutes apply v w)
    (hone : ∃ v ∈ ws, Overrides apply v w) : Absorbs apply ws w := by
  induction ws with
  | nil =>
      obtain ⟨v, hv, -⟩ := hone
      cases hv
  | cons v ws ih =>
      intro s
      rw [List.foldl_cons, List.foldl_cons]
      by_cases hv : Overrides apply v w
      · rw [hv s]
      · rw [(hall v List.mem_cons_self).resolve_left hv s]
        refine ih (fun v' hv' => hall v' (List.mem_cons_of_mem v hv')) ?_ (apply s v)
        obtain ⟨v', hv', hover⟩ := hone
        rcases List.mem_cons.mp hv' with rfl | hmem
        · exact absurd hover hv
        · exact ⟨v', hmem, hover⟩

theorem foldl_absorbed {ws earlier : List ω} (h : ∀ w ∈ earlier, Absorbs apply ws w) (s : σ) :
    ws.foldl apply (earlier.foldl apply s) = ws.foldl apply s := by
  induction earlier generalizing s with
  | nil => rfl
  | cons w earlier ih =>
      rw [List.foldl_cons, ih fun w' hw' => h w' (List.mem_cons_of_mem w hw')]
      exact h w List.mem_cons_self s

/-! ## The worker -/

structure Work (σ ω : Type*) where
  store : σ
  /-- the writes of the jobs done -/
  done : List (List ω) := []
  /-- the writes made for the next job in attempts that came to nothing -/
  abandoned : List ω := []
  /-- the writes of this attempt: those made and those to make -/
  current : Option (List ω × List ω) := none

namespace Work

variable (apply) (w : Work σ ω)

def begin (ws : List ω) : Work σ ω :=
  match w.current with
  | none => { w with current := some ([], ws) }
  | some _ => w

def write : Work σ ω :=
  match w.current with
  | some (made, x :: left) =>
      { w with store := apply w.store x, current := some (made ++ [x], left) }
  | _ => w

def finish : Work σ ω :=
  match w.current with
  | some (made, []) =>
      { w with done := w.done ++ [made], abandoned := [], current := none }
  | _ => w

def abandon : Work σ ω :=
  match w.current with
  | some (made, _) => { w with abandoned := w.abandoned ++ made, current := none }
  | none => w

/-- What has been written for the next job. -/
def unfinished : List ω := w.abandoned ++ (w.current.elim [] Prod.fst)

/-- The store has the jobs done, each once, and something of the next one. -/
structure Consistent (s₀ : σ) : Prop where
  store_eq : w.store = (w.done.flatten ++ w.unfinished).foldl apply s₀
  absorbed : ∀ made left, w.current = some (made, left) →
    ∀ x ∈ w.abandoned, Absorbs apply (made ++ left) x

variable {apply w} {s₀ : σ}

theorem consistent_start (s₀ : σ) : Consistent apply (⟨s₀, [], [], none⟩ : Work σ ω) s₀ :=
  ⟨rfl, nofun⟩

theorem Consistent.begin (h : w.Consistent apply s₀) {ws : List ω}
    (habsorbs : ∀ x ∈ w.abandoned, Absorbs apply ws x) : (w.begin ws).Consistent apply s₀ := by
  rw [Work.begin]
  split
  · next hnone =>
    refine ⟨?_, ?_⟩
    · have hstore := h.store_eq
      rw [unfinished, hnone] at hstore
      exact hstore
    · intro made left hcurrent
      obtain ⟨rfl, rfl⟩ := Prod.mk.inj (Option.some.inj hcurrent)
      exact habsorbs
  · exact h

theorem Consistent.write (h : w.Consistent apply s₀) : (w.write apply).Consistent apply s₀ := by
  rw [Work.write]
  split
  · next made x left hcurrent =>
    refine ⟨?_, ?_⟩
    · have hstore := h.store_eq
      rw [unfinished, hcurrent] at hstore
      change w.store = (w.done.flatten ++ (w.abandoned ++ made)).foldl apply s₀ at hstore
      change apply w.store x = (w.done.flatten ++ (w.abandoned ++ (made ++ [x]))).foldl apply s₀
      rw [hstore, ← List.append_assoc w.abandoned,
        ← List.append_assoc w.done.flatten (w.abandoned ++ made), List.foldl_concat]
    · intro made' left' hcurrent'
      obtain ⟨rfl, rfl⟩ := Prod.mk.inj (Option.some.inj hcurrent')
      rw [List.append_assoc]
      exact h.absorbed made _ hcurrent
  · exact h

/-- The attempt that comes to its end makes up for the others. -/
theorem Consistent.finish (h : w.Consistent apply s₀) : (w.finish).Consistent apply s₀ := by
  rw [Work.finish]
  split
  · next made hcurrent =>
    refine ⟨?_, nofun⟩
    have hstore := h.store_eq
    have habsorbed := h.absorbed made [] hcurrent
    rw [List.append_nil] at habsorbed
    rw [unfinished, hcurrent] at hstore
    change w.store = (w.done.flatten ++ (w.abandoned ++ made)).foldl apply s₀ at hstore
    change w.store = ((w.done ++ [made]).flatten ++ ([] ++ [])).foldl apply s₀
    rw [hstore, List.append_nil, List.append_nil, List.flatten_append, List.flatten_singleton,
      List.foldl_append, List.foldl_append, List.foldl_append, foldl_absorbed habsorbed]
  · exact h

theorem Consistent.abandon (h : w.Consistent apply s₀) : (w.abandon).Consistent apply s₀ := by
  rw [Work.abandon]
  split
  · next made left hcurrent =>
    refine ⟨?_, nofun⟩
    have hstore := h.store_eq
    rw [unfinished, hcurrent] at hstore
    change w.store = (w.done.flatten ++ (w.abandoned ++ made ++ [])).foldl apply s₀
    rw [List.append_nil]
    exact hstore
  · exact h

end Work

end Redo
