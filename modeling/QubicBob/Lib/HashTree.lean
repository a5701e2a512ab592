import QubicBob.Lib.BitWords

set_option autoImplicit false

/-! # Binary hash trees in a flat array, refreshed through a change bit set

A tree over `cap = 2 ^ depth` leaves is one array of `2 * cap - 1` nodes: the leaves first, then
the level above them, and so on up to the root. In this layout the node `cap + p` has the
children `2 * p` and `2 * p + 1` on every level (`HashTree`).

`refreshLevels` brings the inner nodes up to date. It walks the levels from the leaves to the
root and rehashes the parent of every pair with a set change bit. One bit set serves all the
levels: when the pair `i`, `i + 1` is done its bits are cleared and bit `i / 2`, the parent's
place on the next level, is set. Since `i / 2` lies behind the scan position the two uses never
meet; `PairsDone` is the invariant that says so.
-/

namespace HashTree

open BitWords

variable {δ : Type} (hash : δ → δ → δ)

/-- Every inner node is the hash of its two children. -/
def Valid (cap : Nat) (d : Nat → δ) : Prop :=
  ∀ p, p + 1 < cap → d (cap + p) = hash (d (2 * p)) (d (2 * p + 1))

/-- The node at height `l` and position `j` of the tree over the leaves `leaf`. -/
def node (leaf : Nat → δ) : Nat → Nat → δ
  | 0, j => leaf j
  | l + 1, j => hash (node leaf l (2 * j)) (node leaf l (2 * j + 1))

/-- The root of the tree of height `depth` over the leaves `leaf`. -/
def root (leaf : Nat → δ) (depth : Nat) : δ := node hash leaf depth 0

/-- In a valid tree the nodes of height `l` stand behind the levels below them. -/
theorem Valid.node_eq {depth : Nat} {d leaf : Nat → δ} (hv : Valid hash (2 ^ depth) d)
    (hleaf : ∀ j, j < 2 ^ depth → d j = leaf j) :
    ∀ l j, l ≤ depth → j < 2 ^ (depth - l) →
      d (2 * 2 ^ depth - 2 * 2 ^ (depth - l) + j) = node hash leaf l j := by
  intro l
  induction l with
  | zero =>
      intro j _ hj
      rw [Nat.sub_zero] at hj ⊢
      rw [Nat.sub_self, Nat.zero_add]
      exact hleaf j hj
  | succ l ih =>
      intro j hl hj
      have hpow : 2 ^ (depth - l) = 2 * 2 ^ (depth - (l + 1)) := by
        rw [show depth - l = depth - (l + 1) + 1 by omega, pow_succ, Nat.mul_comm]
      have hle : 2 ^ (depth - l) ≤ 2 ^ depth := Nat.pow_le_pow_right (by decide) (by omega)
      have hp := hv (2 ^ depth - 2 ^ (depth - l) + j) (by omega)
      have h0 := ih (2 * j) (by omega) (by omega)
      have h1 := ih (2 * j + 1) (by omega) (by omega)
      rw [node, ← h0, ← h1]
      rw [show 2 * 2 ^ depth - 2 * 2 ^ (depth - (l + 1)) + j
          = 2 ^ depth + (2 ^ depth - 2 ^ (depth - l) + j) by omega, hp]
      congr 2 <;> omega

/-- The last node of a valid tree is the root over its leaves. -/
theorem Valid.root_eq {depth : Nat} {d leaf : Nat → δ} (hv : Valid hash (2 ^ depth) d)
    (hleaf : ∀ j, j < 2 ^ depth → d j = leaf j) :
    d (2 * 2 ^ depth - 1 - 1) = root hash leaf depth := by
  have h := Valid.node_eq hash hv hleaf depth 0 (Nat.le_refl _) (by simp)
  rw [Nat.sub_self, pow_zero, Nat.add_zero] at h
  rw [root, ← h]
  congr 1

/-- Two valid trees over the same leaves are the same tree. -/
theorem Valid.unique {cap : Nat} {d d' : Nat → δ} (hv : Valid hash cap d)
    (hv' : Valid hash cap d') (hleaf : ∀ j, j < cap → d j = d' j) :
    ∀ x, x < 2 * cap - 1 → d x = d' x := by
  intro x
  induction x using Nat.strong_induction_on with
  | _ x ih =>
      intro hx
      by_cases hlt : x < cap
      · exact hleaf x hlt
      · -- an inner node is determined by its children, which have smaller indices
        have hc : x = cap + (x - cap) := by omega
        rw [hc, hv _ (by omega), hv' _ (by omega), ih _ (by omega) (by omega),
          ih _ (by omega) (by omega)]

/-! ## The refresh -/

/-- The nodes, the change bits and the index of the next inner node to visit. -/
structure Tree (δ : Type) where
  nodes : Nat → δ
  flags : Words
  next : Nat

/-- One round of the scan of a level that begins at `prev`: the pair `i`, `i + 1`. -/
def refreshPair (prev : Nat) (t : Tree δ) (i : Nat) : Tree δ :=
  if testPair t.flags i then
    { nodes := Function.update t.nodes t.next (hash (t.nodes (prev + i)) (t.nodes (prev + i + 1)))
      flags := setBit (clearPair t.flags i) (i >>> 1)
      next := t.next + 1 }
  else { t with next := t.next + 1 }

/-- The scan of a level of `n` nodes that begins at `prev`. -/
def refreshLevel (prev n : Nat) (t : Tree δ) : Tree δ :=
  (List.range (n / 2)).foldl (fun t k => refreshPair hash prev t (2 * k)) t

/-- All the levels above one of `2 ^ k` nodes that begins at `prev`. -/
def refreshLevels : Nat → Nat → Tree δ → Tree δ
  | 0, _, t => t
  | k + 1, prev, t =>
      refreshLevels k (prev + 2 ^ (k + 1)) (refreshLevel hash prev (2 ^ (k + 1)) t)

/-- What the scan of the level `[lo, lo + n)` has done after `j` pairs, against the nodes `d` and
bits `f` it began with: the first `j` parents are up to date and carry the bits of their pairs,
and the bits from `j` up to the scan position are clear. -/
structure PairsDone (lo n : Nat) (d : Nat → δ) (f : Words) (j : Nat) (t : Tree δ) : Prop where
  next : t.next = lo + n + j
  done : ∀ m, m < j → t.nodes (lo + n + m) = hash (d (lo + 2 * m)) (d (lo + 2 * m + 1))
  frame : ∀ x, x < lo + n ∨ lo + n + j ≤ x → t.nodes x = d x
  marked : ∀ m, m < j → getBit t.flags m = (getBit f (2 * m) || getBit f (2 * m + 1))
  behind : ∀ i, j ≤ i → i < 2 * j → getBit t.flags i = false
  ahead : ∀ i, 2 * j ≤ i → getBit t.flags i = getBit f i

/-- The parents of unflagged pairs are up to date. -/
def Pending (lo n : Nat) (d : Nat → δ) (f : Words) : Prop :=
  ∀ j, 2 * j + 1 < n → getBit f (2 * j) = false → getBit f (2 * j + 1) = false →
    d (lo + n + j) = hash (d (lo + 2 * j)) (d (lo + 2 * j + 1))

theorem shiftRight_one_double (j : Nat) : (2 * j) >>> 1 = j := by
  rw [Nat.shiftRight_eq_div_pow]; omega

theorem PairsDone.testPair_eq {lo n : Nat} {d : Nat → δ} {f : Words} {j : Nat} {t : Tree δ}
    (h : PairsDone hash lo n d f j t) :
    testPair t.flags (2 * j) = (getBit f (2 * j) || getBit f (2 * j + 1)) := by
  rw [BitWords.testPair_eq _ (by omega), h.ahead _ (by omega), h.ahead _ (by omega)]

/-- A flagged pair: its parent is rehashed and the parent's bit set. -/
theorem PairsDone.flagged {lo n : Nat} {d : Nat → δ} {f : Words} {j : Nat} {t : Tree δ}
    (hj : 2 * j + 1 < n) (h : PairsDone hash lo n d f j t)
    (hset : testPair t.flags (2 * j) = true) :
    PairsDone hash lo n d f (j + 1) (refreshPair hash lo t (2 * j)) := by
  have hc0 : t.nodes (lo + 2 * j) = d (lo + 2 * j) := h.frame _ (by omega)
  have hc1 : t.nodes (lo + 2 * j + 1) = d (lo + 2 * j + 1) := h.frame _ (by omega)
  have hbits : ∀ i, getBit (refreshPair hash lo t (2 * j)).flags i
      = (decide (i = j) || (getBit t.flags i && !decide (i = 2 * j ∨ i = 2 * j + 1))) := by
    intro i
    rw [refreshPair, if_pos hset, getBit_setBit, getBit_clearPair _ (by omega),
      shiftRight_one_double]
  have hnodes : ∀ x, (refreshPair hash lo t (2 * j)).nodes x
      = if x = lo + n + j then hash (d (lo + 2 * j)) (d (lo + 2 * j + 1)) else t.nodes x := by
    intro x
    rw [refreshPair, if_pos hset]
    show Function.update t.nodes t.next _ x = _
    rw [Function.update_apply, h.next, hc0, hc1]
  -- the parent's bit `j` lies behind the pair, so setting it disturbs no bit still to be read
  constructor
  case next =>
    rw [refreshPair, if_pos hset]
    show t.next + 1 = _
    rw [h.next]; omega
  case done =>
    intro m hm
    rw [hnodes]
    by_cases hmj : m = j
    · rw [hmj, if_pos rfl]
    · rw [if_neg (by omega)]
      exact h.done m (by omega)
  case frame =>
    intro x hx
    rw [hnodes, if_neg (by omega)]
    exact h.frame x (by omega)
  case marked =>
    intro m hm
    rw [hbits]
    by_cases hmj : m = j
    · rw [hmj, ← h.testPair_eq, hset]; simp
    · have hpair : ¬ (m = 2 * j ∨ m = 2 * j + 1) := by omega
      simp [hmj, hpair, h.marked m (by omega)]
  case behind =>
    intro i hi hi2
    rw [hbits]
    have hij : i ≠ j := by omega
    by_cases hpair : i = 2 * j ∨ i = 2 * j + 1
    · simp [hij, hpair]
    · simp [hij, hpair, h.behind i (by omega) (by omega)]
  case ahead =>
    intro i hi
    rw [hbits, h.ahead i (by omega)]
    have hij : i ≠ j := by omega
    have hpair : ¬ (i = 2 * j ∨ i = 2 * j + 1) := by omega
    simp [hij, hpair]

/-- A pair with both bits clear: the parent is up to date already. -/
theorem PairsDone.unflagged {lo n : Nat} {d : Nat → δ} {f : Words} {j : Nat} {t : Tree δ}
    (hp : Pending hash lo n d f) (hj : 2 * j + 1 < n) (h : PairsDone hash lo n d f j t)
    (hset : testPair t.flags (2 * j) = false) :
    PairsDone hash lo n d f (j + 1) (refreshPair hash lo t (2 * j)) := by
  obtain ⟨h0, h1⟩ : getBit f (2 * j) = false ∧ getBit f (2 * j + 1) = false := by
    rw [h.testPair_eq, Bool.or_eq_false_iff] at hset
    exact hset
  -- the bits behind the scan position are clear, which is right for the parent too
  have hclear : ∀ i, j ≤ i → i < 2 * (j + 1) → getBit t.flags i = false := by
    intro i hi hi2
    by_cases hpair : i = 2 * j ∨ i = 2 * j + 1
    · rw [h.ahead _ (by omega)]
      rcases hpair with rfl | rfl
      · exact h0
      · exact h1
    · exact h.behind i hi (by omega)
  rw [refreshPair, if_neg (by rw [hset]; exact Bool.false_ne_true)]
  constructor
  case next =>
    show t.next + 1 = _
    rw [h.next]; omega
  case done =>
    intro m hm
    by_cases hmj : m = j
    · subst hmj
      rw [← hp m hj h0 h1]
      exact h.frame _ (by omega)
    · exact h.done m (by omega)
  case frame => exact fun x hx => h.frame x (by omega)
  case marked =>
    intro m hm
    by_cases hmj : m = j
    · rw [hmj, h0, h1]
      exact hclear j (Nat.le_refl _) (by omega)
    · exact h.marked m (by omega)
  case behind => exact fun i hi hi2 => hclear i (by omega) hi2
  case ahead => exact fun i hi => h.ahead i (by omega)

theorem PairsDone.step {lo n : Nat} {d : Nat → δ} {f : Words} {j : Nat} {t : Tree δ}
    (hp : Pending hash lo n d f) (hj : 2 * j + 1 < n) (h : PairsDone hash lo n d f j t) :
    PairsDone hash lo n d f (j + 1) (refreshPair hash lo t (2 * j)) := by
  cases hset : testPair t.flags (2 * j) with
  | true => exact h.flagged hash hj hset
  | false => exact h.unflagged hash hp hj hset

/-- The scan of a level, pair by pair. -/
theorem refreshLevel_done {lo n : Nat} {t : Tree δ} (hp : Pending hash lo n t.nodes t.flags)
    (hnext : t.next = lo + n) :
    ∀ j, 2 * j ≤ n → PairsDone hash lo n t.nodes t.flags j
      ((List.range j).foldl (fun t k => refreshPair hash lo t (2 * k)) t) := by
  intro j
  induction j with
  | zero =>
      intro _
      refine ⟨hnext, ?_, fun x _ => rfl, ?_, ?_, fun i _ => rfl⟩
      · intro m hm; omega
      · intro m hm; omega
      · intro i _ hi; omega
  | succ j ih =>
      intro hj
      rw [List.range_succ, List.foldl_append]
      exact PairsDone.step hash hp (by omega) (ih (by omega))

/-- The node `cap + p` is the hash of the children it has in `d`. -/
def UpToDate (cap : Nat) (d : Nat → δ) (p : Nat) : Prop :=
  d (cap + p) = hash (d (2 * p)) (d (2 * p + 1))

/-- The invariant between levels. `[lo, lo + n)` is the level about to be scanned: the nodes up
to it are up to date and so are the parents of its unflagged pairs. The nodes further up are
either up to date with the children they have now, or are all going to be rehashed. -/
structure LevelInv (cap lo n : Nat) (leaf : Nat → δ) (t : Tree δ) : Prop where
  layout : lo + 2 * n = 2 * cap
  next : t.next = lo + n
  leaves : ∀ x, x < cap → t.nodes x = leaf x
  below : ∀ p, cap + p < lo + n → UpToDate hash cap t.nodes p
  pending : Pending hash lo n t.nodes t.flags
  above : (∀ p, 2 * (lo + n) + n ≤ 2 * (cap + p) → p + 1 < cap → UpToDate hash cap t.nodes p) ∨
    (∀ i, i < n → getBit t.flags i = true)
  clear : ∀ i, n ≤ i → i < cap → getBit t.flags i = false

/-- Scanning one level moves the invariant one level up. -/
theorem LevelInv.step {cap lo m : Nat} {leaf : Nat → δ} {t : Tree δ}
    (h : LevelInv hash cap lo (2 * m) leaf t) :
    LevelInv hash cap (lo + 2 * m) m leaf (refreshLevel hash lo (2 * m) t) := by
  have hlay := h.layout
  have hd := refreshLevel_done hash h.pending h.next m (by omega)
  have heq : refreshLevel hash lo (2 * m) t
      = (List.range m).foldl (fun t k => refreshPair hash lo t (2 * k)) t := by
    rw [refreshLevel, Nat.mul_div_cancel_left _ (by decide)]
  rw [heq]
  set t' := (List.range m).foldl (fun t k => refreshPair hash lo t (2 * k)) t with ht'
  -- only nodes of the next level have changed, and of these only the flagged ones
  have hframe : ∀ x, x < lo + 2 * m ∨ lo + 2 * m + m ≤ x → t'.nodes x = t.nodes x := hd.frame
  have hkept : ∀ i, i < m → getBit t'.flags i = false →
      t'.nodes (lo + 2 * m + i) = t.nodes (lo + 2 * m + i) := by
    intro i hi hbit
    rw [hd.marked i hi, Bool.or_eq_false_iff] at hbit
    rw [hd.done i hi, h.pending i (by omega) hbit.1 hbit.2]
  refine ⟨by omega, hd.next, ?_, ?_, ?_, ?_, ?_⟩
  · intro x hx
    rw [hframe x (by omega)]
    exact h.leaves x hx
  · intro p hp
    show t'.nodes (cap + p) = hash (t'.nodes (2 * p)) (t'.nodes (2 * p + 1))
    rw [hframe (2 * p) (by omega), hframe (2 * p + 1) (by omega)]
    by_cases hlow : cap + p < lo + 2 * m
    · rw [hframe _ (by omega)]
      exact h.below p hlow
    · have hdone := hd.done (cap + p - (lo + 2 * m)) (by omega)
      rw [show lo + 2 * m + (cap + p - (lo + 2 * m)) = cap + p by omega] at hdone
      rw [hdone]
      congr 2 <;> omega
  · intro j hj h0 h1
    rcases h.above with habove | hall
    · have hab := habove (lo + 2 * m + m + j - cap) (by omega) (by omega)
      rw [UpToDate, show cap + (lo + 2 * m + m + j - cap) = lo + 2 * m + m + j by omega,
        show 2 * (lo + 2 * m + m + j - cap) = lo + 2 * m + 2 * j by omega] at hab
      rw [hframe _ (by omega), hab, hkept (2 * j) (by omega) h0]
      have hk1 := hkept (2 * j + 1) (by omega) h1
      rw [show lo + 2 * m + (2 * j + 1) = lo + 2 * m + 2 * j + 1 by omega] at hk1
      rw [hk1]
    · rw [hd.marked _ (by omega), hall _ (by omega)] at h0
      simp at h0
  · rcases h.above with habove | hall
    · left
      intro p hp hpc
      have hup := habove p (by omega) hpc
      show t'.nodes (cap + p) = hash (t'.nodes (2 * p)) (t'.nodes (2 * p + 1))
      rw [hframe _ (by omega), hframe (2 * p) (by omega), hframe (2 * p + 1) (by omega)]
      exact hup
    · right
      intro i hi
      rw [hd.marked i hi, hall _ (by omega), Bool.true_or]
  · intro i hi hic
    by_cases hlt : i < 2 * m
    · exact hd.behind i hi hlt
    · rw [hd.ahead i (by omega)]
      exact h.clear i (by omega) hic

/-- Scanning every level ends at the root. -/
theorem refreshLevels_inv {cap : Nat} {leaf : Nat → δ} :
    ∀ (k lo : Nat) (t : Tree δ), LevelInv hash cap lo (2 ^ k) leaf t →
      LevelInv hash cap (lo + 2 * 2 ^ k - 2) 1 leaf (refreshLevels hash k lo t) := by
  intro k
  induction k with
  | zero =>
      intro lo t h
      exact h
  | succ k ih =>
      intro lo t h
      rw [refreshLevels]
      have hpow : 2 ^ (k + 1) = 2 * 2 ^ k := by rw [pow_succ, Nat.mul_comm]
      rw [hpow] at h ⊢
      have hone : 1 ≤ 2 ^ k := Nat.one_le_two_pow
      have hfin := ih _ _ (LevelInv.step hash h)
      rw [show lo + 2 * 2 ^ k + 2 * 2 ^ k - 2 = lo + 2 * (2 * 2 ^ k) - 2 by omega] at hfin
      exact hfin

/-! ## The whole refresh -/

/-- All levels of a tree of height `depth`, and the last bit, the root's, cleared with the word
it stands in. -/
def refresh (depth : Nat) (nodes : Nat → δ) (flags : Words) : (Nat → δ) × Words :=
  let t := refreshLevels hash depth 0 ⟨nodes, flags, 2 ^ depth⟩
  (t.nodes, Function.update t.flags 0 0#64)

/-- What a refresh returns: a valid tree over the leaves it was given, and no change bit. -/
structure Refreshed (depth : Nat) (leaf : Nat → δ) (r : (Nat → δ) × Words) : Prop where
  valid : Valid hash (2 ^ depth) r.1
  leaves : ∀ x, x < 2 ^ depth → r.1 x = leaf x
  clear : ∀ i, i < 2 ^ depth → getBit r.2 i = false

theorem refresh_of_levelInv {depth : Nat} {nodes leaf : Nat → δ} {flags : Words}
    (h : LevelInv hash (2 ^ depth) 0 (2 ^ depth) leaf ⟨nodes, flags, 2 ^ depth⟩) :
    Refreshed hash depth leaf (refresh hash depth nodes flags) := by
  have hone : 1 ≤ 2 ^ depth := Nat.one_le_two_pow
  have hfin := refreshLevels_inv hash depth 0 _ h
  refine ⟨?_, hfin.leaves, ?_⟩
  · intro p hp
    exact hfin.below p (by omega)
  · intro i hi
    show getBit (Function.update _ 0 0#64) i = false
    rw [getBit_update_zero]
    by_cases hz : i = 0
    · simp [hz]
    · rw [hfin.clear i (by omega) hi, Bool.false_and]

/-- **Incremental refresh.** If a valid tree had leaves changed only where a bit is set, the
refresh makes it valid again. -/
theorem refresh_of_valid {depth : Nat} {old nodes : Nat → δ} {flags : Words}
    (hv : Valid hash (2 ^ depth) old) (hinner : ∀ x, 2 ^ depth ≤ x → nodes x = old x)
    (hleaf : ∀ x, x < 2 ^ depth → getBit flags x = false → nodes x = old x) :
    Refreshed hash depth nodes (refresh hash depth nodes flags) := by
  apply refresh_of_levelInv
  refine ⟨by omega, (Nat.zero_add _).symm, fun x _ => rfl, ?_, ?_, Or.inl ?_, ?_⟩
  · intro p hp; omega
  · intro j hj h0 h1
    have hup := hv j (by omega)
    simp only [Nat.zero_add]
    rw [hinner _ (by omega), hup, hleaf _ (by omega) h0, hleaf _ (by omega) h1]
  · intro p hp hpc
    have hup := hv p hpc
    show nodes _ = hash (nodes _) (nodes _)
    rw [hinner _ (by omega), hup, hinner _ (by omega), hinner _ (by omega)]
  · intro i hi hlt; omega

/-- **Full refresh.** With every bit set the tree becomes valid whatever it was before. -/
theorem refresh_of_all {depth : Nat} {nodes : Nat → δ} {flags : Words}
    (hall : ∀ i, i < 2 ^ depth → getBit flags i = true) :
    Refreshed hash depth nodes (refresh hash depth nodes flags) := by
  apply refresh_of_levelInv
  refine ⟨by omega, (Nat.zero_add _).symm, fun x _ => rfl, ?_, ?_, Or.inr hall, ?_⟩
  · intro p hp; omega
  · intro j hj h0 _
    rw [hall _ (by omega)] at h0
    exact Bool.noConfusion h0
  · intro i hi hlt; omega

/-! ## Rehashing leaves -/

/-- Rehash the selected ones of the first `n` leaves and set their change bits. -/
def rehashAndMark (sel : Nat → Bool) (leafHash : Nat → δ) (n : Nat) (nodes : Nat → δ)
    (flags : Words) : (Nat → δ) × Words :=
  (List.range n).foldl
    (fun t i => if sel i then (Function.update t.1 i (leafHash i), setBit t.2 i) else t)
    (nodes, flags)

/-- Rehash the selected ones of the first `n` leaves. -/
def rehash (sel : Nat → Bool) (leafHash : Nat → δ) (n : Nat) (nodes : Nat → δ) : Nat → δ :=
  (List.range n).foldl (fun d i => if sel i then Function.update d i (leafHash i) else d) nodes

variable {hash}

theorem rehash_apply (sel : Nat → Bool) (leafHash : Nat → δ) (n : Nat) (nodes : Nat → δ)
    (x : Nat) :
    rehash sel leafHash n nodes x = if x < n ∧ sel x = true then leafHash x else nodes x := by
  induction n with
  | zero => simp [rehash]
  | succ n ih =>
      rw [rehash, List.range_succ, List.foldl_append, List.foldl_cons, List.foldl_nil]
      rw [rehash] at ih
      by_cases hx : x = n
      · subst hx
        by_cases hs : sel x = true
        · simp [hs]
        · rw [if_neg hs, ih]; simp [hs]
      · simp only [show x < n + 1 ↔ x < n by omega]
        by_cases hs : sel n = true
        · rw [if_pos hs, Function.update_of_ne hx, ih]
        · rw [if_neg hs, ih]

theorem rehashAndMark_nodes (sel : Nat → Bool) (leafHash : Nat → δ) (n : Nat) (nodes : Nat → δ)
    (flags : Words) :
    (rehashAndMark sel leafHash n nodes flags).1 = rehash sel leafHash n nodes := by
  induction n with
  | zero => rfl
  | succ n ih =>
      rw [rehashAndMark, rehash, List.range_succ, List.foldl_append, List.foldl_append,
        List.foldl_cons, List.foldl_nil, List.foldl_cons, List.foldl_nil]
      rw [rehashAndMark, rehash] at ih
      by_cases hs : sel n = true
      · rw [if_pos hs, if_pos hs, ih]
      · rw [if_neg hs, if_neg hs, ih]

theorem rehashAndMark_flags (sel : Nat → Bool) (leafHash : Nat → δ) (n : Nat) (nodes : Nat → δ)
    (flags : Words) (x : Nat) :
    getBit (rehashAndMark sel leafHash n nodes flags).2 x
      = (getBit flags x || decide (x < n ∧ sel x = true)) := by
  induction n with
  | zero => simp [rehashAndMark]
  | succ n ih =>
      rw [rehashAndMark, List.range_succ, List.foldl_append, List.foldl_cons, List.foldl_nil]
      rw [rehashAndMark] at ih
      by_cases hs : sel n = true
      · rw [if_pos hs]
        show getBit (setBit _ n) x = _
        rw [getBit_setBit, ih]
        by_cases hx : x = n
        · subst hx; simp [hs]
        · simp only [hx, decide_false, Bool.false_or, show x < n + 1 ↔ x < n by omega]
      · rw [if_neg hs, ih]
        by_cases hx : x = n
        · subst hx; simp [hs]
        · simp only [show x < n + 1 ↔ x < n by omega]

/-- The words of a tree's bit set are zero after a refresh. -/
theorem Refreshed.word_eq_zero {depth : Nat} {leaf : Nat → δ} {r : (Nat → δ) × Words}
    (h : Refreshed hash depth leaf r) (hdepth : 6 ≤ depth) :
    ∀ w, w < 2 ^ depth / 64 → r.2 w = 0#64 := by
  intro w hw
  apply BitWords.word_eq_zero
  intro o ho
  have hdvd : 64 ∣ 2 ^ depth := pow_dvd_pow 2 hdepth
  exact h.clear _ (by omega)

end HashTree
