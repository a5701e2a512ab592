import Mathlib.Tactic

set_option autoImplicit false

/-! # Blocks of a list

`OneBlock P R l`: the elements of `l` with `P` stand together, in the order of `R`. Two kinds of
lists have one block: an ordered list where what has `P` is an interval of the order, and a list
made of pieces where `P` says from which piece an element is. A part of a list with one block has
one as well, since leaving elements out moves none past another.
-/

namespace Blocks

variable {α β κ : Type*} {P : α → Prop} {R : α → α → Prop} {l l' : List α}

/-- The elements with `P` are a stretch of the list that is in the order of `R`. -/
def OneBlock (P : α → Prop) (R : α → α → Prop) (l : List α) : Prop :=
  ∃ pre blk post, l = pre ++ blk ++ post ∧ (∀ x ∈ pre, ¬ P x) ∧ (∀ x ∈ blk, P x) ∧
    (∀ x ∈ post, ¬ P x) ∧ blk.Pairwise R

theorem oneBlock_of_none (h : ∀ x ∈ l, ¬ P x) : OneBlock P R l :=
  ⟨l, [], [], by rw [List.append_nil, List.append_nil], h, fun _ hx => absurd hx List.not_mem_nil,
    fun _ hx => absurd hx List.not_mem_nil, .nil⟩

theorem OneBlock.sublist (h : OneBlock P R l) (hsub : l'.Sublist l) : OneBlock P R l' := by
  obtain ⟨pre, blk, post, rfl, hpre, hblk, hpost, hsorted⟩ := h
  obtain ⟨front, post', rfl, hfront, hpost'⟩ := List.sublist_append_iff.mp hsub
  obtain ⟨pre', blk', rfl, hpre', hblk'⟩ := List.sublist_append_iff.mp hfront
  exact ⟨pre', blk', post', rfl, fun x hx => hpre x (hpre'.subset hx),
    fun x hx => hblk x (hblk'.subset hx), fun x hx => hpost x (hpost'.subset hx),
    hsorted.sublist hblk'⟩

theorem OneBlock.map {P : β → Prop} {R : β → β → Prop} {f : α → β}
    (h : OneBlock (fun x => P (f x)) (fun x y => R (f x) (f y)) l) : OneBlock P R (l.map f) := by
  obtain ⟨pre, blk, post, rfl, hpre, hblk, hpost, hsorted⟩ := h
  refine ⟨pre.map f, blk.map f, post.map f, ?_, List.forall_mem_map.mpr hpre,
    List.forall_mem_map.mpr hblk, List.forall_mem_map.mpr hpost, List.pairwise_map.mpr hsorted⟩
  rw [List.map_append, List.map_append]

theorem OneBlock.pairwise (h : OneBlock P R l) : l.Pairwise fun x y => P x → P y → R x y := by
  obtain ⟨pre, blk, post, rfl, hpre, -, hpost, hsorted⟩ := h
  refine List.pairwise_append.mpr
    ⟨List.pairwise_append.mpr ⟨?_, hsorted.imp fun hR _ _ => hR, ?_⟩, ?_, ?_⟩
  · exact List.pairwise_of_forall_mem_list fun x hx _ _ hPx => absurd hPx (hpre x hx)
  · exact fun x hx _ _ hPx => absurd hPx (hpre x hx)
  · exact List.pairwise_of_forall_mem_list fun x hx _ _ hPx => absurd hPx (hpost x hx)
  · exact fun _ _ y hy _ hPy => absurd hPy (hpost y hy)

theorem filter_eq_block [DecidablePred P] {pre blk post : List α} (hpre : ∀ x ∈ pre, ¬ P x)
    (hblk : ∀ x ∈ blk, P x) (hpost : ∀ x ∈ post, ¬ P x) :
    (pre ++ blk ++ post).filter (fun x => decide (P x)) = blk := by
  have hnone : ∀ l : List α, (∀ x ∈ l, ¬ P x) → l.filter (fun x => decide (P x)) = [] :=
    fun l hl => List.filter_eq_nil_iff.mpr fun x hx => by simpa using hl x hx
  rw [List.filter_append, List.filter_append, hnone pre hpre, hnone post hpost, List.nil_append,
    List.append_nil, List.filter_eq_self.mpr fun x hx => by simpa using hblk x hx]

/-- Between two elements of an ordered list that have `P` there are only such. -/
theorem oneBlock_of_pairwise (h : l.Pairwise R)
    (hconvex : ∀ x ∈ l, ∀ y ∈ l, ∀ z ∈ l, R x y → R y z → P x → P z → P y) : OneBlock P R l := by
  induction l with
  | nil => exact oneBlock_of_none fun _ hx => absurd hx List.not_mem_nil
  | cons x l ih =>
      obtain ⟨hx, h⟩ := List.pairwise_cons.mp h
      obtain ⟨pre, blk, post, rfl, hpre, hblk, hpost, hsorted⟩ := ih h fun y hy z hz w hw =>
        hconvex y (List.mem_cons_of_mem _ hy) z (List.mem_cons_of_mem _ hz) w
          (List.mem_cons_of_mem _ hw)
      by_cases hPx : P x
      · cases blk with
        | nil =>
            refine ⟨[], [x], pre ++ [] ++ post, rfl, fun _ hy => absurd hy List.not_mem_nil, ?_, ?_,
              List.pairwise_singleton R x⟩
            · exact fun y hy => (List.mem_singleton.mp hy) ▸ hPx
            · intro y hy
              rw [List.append_nil] at hy
              exact (List.mem_append.mp hy).elim (hpre y) (hpost y)
        | cons b blk =>
            -- an element before the block would be between `x` and the block
            have hnil : pre = [] := by
              refine List.eq_nil_iff_forall_not_mem.mpr fun y hy => hpre y hy ?_
              have hmem : y ∈ pre ++ b :: blk ++ post := by simp [hy]
              have hb : b ∈ pre ++ b :: blk ++ post := by simp
              have hyb : R y b := (List.pairwise_append.mp (List.pairwise_append.mp h).1).2.2 y hy b
                List.mem_cons_self
              exact hconvex x List.mem_cons_self y (List.mem_cons_of_mem _ hmem) b
                (List.mem_cons_of_mem _ hb) (hx y hmem) hyb hPx (hblk b List.mem_cons_self)
            subst hnil
            refine ⟨[], x :: b :: blk, post, rfl, hpre, List.forall_mem_cons.mpr ⟨hPx, hblk⟩, hpost,
              List.pairwise_cons.mpr ⟨fun y hy => hx y ?_, hsorted⟩⟩
            exact List.mem_append_left _ hy
      · exact ⟨x :: pre, blk, post, rfl, List.forall_mem_cons.mpr ⟨hPx, hpre⟩, hblk, hpost, hsorted⟩

/-- The elements with `P` are those of one piece. -/
theorem oneBlock_flatMap {ks : List κ} {f : κ → List α} {k₀ : κ} (hnodup : ks.Nodup)
    (hiff : ∀ k ∈ ks, ∀ x ∈ f k, P x ↔ k = k₀) (hsorted : (f k₀).Pairwise R) :
    OneBlock P R (ks.flatMap f) := by
  by_cases hmem : k₀ ∈ ks
  · obtain ⟨front, back, rfl⟩ := List.append_of_mem hmem
    have hother : ∀ k, k ∈ front ∨ k ∈ back → k ≠ k₀ := by
      rintro k hk rfl
      rw [List.nodup_append, List.nodup_cons] at hnodup
      exact hk.elim (fun hk => hnodup.2.2 k hk k List.mem_cons_self rfl) hnodup.2.1.1
    refine ⟨front.flatMap f, f k₀, back.flatMap f, ?_, fun x hx => ?_,
      fun x hx => (hiff k₀ hmem x hx).mpr rfl, fun x hx => ?_, hsorted⟩
    · rw [List.flatMap_append, List.flatMap_cons, List.append_assoc]
    · obtain ⟨k, hk, hx⟩ := List.mem_flatMap.mp hx
      exact fun hPx => hother k (.inl hk) ((hiff k (List.mem_append_left _ hk) x hx).mp hPx)
    · obtain ⟨k, hk, hx⟩ := List.mem_flatMap.mp hx
      exact fun hPx => hother k (.inr hk)
        ((hiff k (List.mem_append_right _ (List.mem_cons_of_mem _ hk)) x hx).mp hPx)
  · refine oneBlock_of_none fun x hx hPx => ?_
    obtain ⟨k, hk, hx⟩ := List.mem_flatMap.mp hx
    exact hmem ((hiff k hk x hx).mp hPx ▸ hk)

end Blocks
