import QubicBob.Lib.Counters
import QubicBob.Lib.Runs

set_option autoImplicit false

/-! # The connection slots of the server

`QubicServer`: the accept thread takes a slot of the `ConnectionLimiter` for each connection, and
the cleanup thread gives the slots of the finished clients back, one `release` after the other while
it holds `clients_m_`. Each client thread exits by itself, on one of three paths. A run interleaves
the three kinds of threads at the places where they hold a mutex.

The counters are compared with the list of those that hold a slot: the connection in the hand of the
accept thread and the clients in the list (`holders`). Every step that changes a counter moves one
address into that list or out of it, so the counters are read off the list at any time (`Slots`),
and a release finds its counters above zero. That the slots all come back is a question about one
flag: a pass takes away the clients with `finished` set, and of the three exits only the one by the
handshake timeout leaves it unset.
-/

namespace QubicBob

/-! ## The limiter -/

/-- The counters are of type `size_t`. -/
structure ConnectionLimiter where
  ipConnections_ : Counters String := ∅
  totalConnections_ : Nat := 0
  maxGlobal_ : Nat
  maxPerIp_ : Nat
  maxGlobal_lt : maxGlobal_ < 2 ^ 64

namespace ConnectionLimiter

def tryAccept (l : ConnectionLimiter) (ip : String) : Bool × ConnectionLimiter :=
  if l.maxGlobal_ ≤ l.totalConnections_ then (false, l)
  else
    let currentIpCount := l.ipConnections_.count ip
    -- `operator[]` leaves an entry behind also where the connection is refused
    if l.maxPerIp_ ≤ currentIpCount then
      (false, { l with ipConnections_ := l.ipConnections_.insert ip currentIpCount })
    else
      (true, { l with
        ipConnections_ := l.ipConnections_.insert ip ((currentIpCount + 1) % 2 ^ 64)
        totalConnections_ := (l.totalConnections_ + 1) % 2 ^ 64 })

/-- `--it->second` on a `size_t`. -/
def release (l : ConnectionLimiter) (ip : String) : ConnectionLimiter :=
  { l with
    ipConnections_ :=
      match l.ipConnections_.lookup ip with
      | none => l.ipConnections_
      | some n =>
          let left := (n + (2 ^ 64 - 1)) % 2 ^ 64
          if left = 0 then l.ipConnections_.erase ip else l.ipConnections_.insert ip left
    totalConnections_ :=
      if 0 < l.totalConnections_ then l.totalConnections_ - 1 else l.totalConnections_ }

variable {l l' : ConnectionLimiter} {ip : String}

/-- A refused connection changes no counter. -/
theorem tryAccept_refused (h : l.tryAccept ip = (false, l')) :
    l'.totalConnections_ = l.totalConnections_ ∧ l'.maxGlobal_ = l.maxGlobal_ ∧
      l'.maxPerIp_ = l.maxPerIp_ ∧ l'.ipConnections_.total = l.ipConnections_.total ∧
      ∀ ip', l'.ipConnections_.count ip' = l.ipConnections_.count ip' := by
  simp only [tryAccept] at h
  split at h
  · obtain rfl := congrArg Prod.snd h
    exact ⟨rfl, rfl, rfl, rfl, fun _ => rfl⟩
  · split at h
    · obtain rfl := congrArg Prod.snd h
      refine ⟨rfl, rfl, rfl, ?_, ?_⟩
      · have htotal := Counters.total_insert l.ipConnections_ ip (l.ipConnections_.count ip)
        dsimp only
        omega
      · intro ip'
        dsimp only
        rw [Counters.count_insert]
        split
        · next h' => rw [h']
        · rfl
    · cases congrArg Prod.fst h

/-- An accepted connection takes one slot, of the total and of its address. -/
theorem tryAccept_accepted (hcount : l.ipConnections_.count ip ≤ l.totalConnections_)
    (h : l.tryAccept ip = (true, l')) :
    l.totalConnections_ < l.maxGlobal_ ∧ l.ipConnections_.count ip < l.maxPerIp_ ∧
      l'.totalConnections_ = l.totalConnections_ + 1 ∧ l'.maxGlobal_ = l.maxGlobal_ ∧
      l'.maxPerIp_ = l.maxPerIp_ ∧ l'.ipConnections_.total = l.ipConnections_.total + 1 ∧
      ∀ ip', l'.ipConnections_.count ip' =
        l.ipConnections_.count ip' + if ip' = ip then 1 else 0 := by
  have hlt := l.maxGlobal_lt
  simp only [tryAccept] at h
  split at h
  · cases congrArg Prod.fst h
  · next hglobal =>
    split at h
    · cases congrArg Prod.fst h
    · next hip =>
      obtain rfl := congrArg Prod.snd h
      have htotal : (l.totalConnections_ + 1) % 2 ^ 64 = l.totalConnections_ + 1 :=
        Nat.mod_eq_of_lt (by omega)
      have hone : (l.ipConnections_.count ip + 1) % 2 ^ 64 = l.ipConnections_.count ip + 1 :=
        Nat.mod_eq_of_lt (by omega)
      refine ⟨by omega, by omega, htotal, rfl, rfl, ?_, ?_⟩
      · have hsum := Counters.total_insert l.ipConnections_ ip (l.ipConnections_.count ip + 1)
        dsimp only
        rw [hone]
        omega
      · intro ip'
        dsimp only
        rw [hone, Counters.count_insert]
        split
        · next h' => rw [h']
        · rfl

/-- A release gives one slot back, where there is one to give. -/
theorem release_spec (hip : 0 < l.ipConnections_.count ip)
    (hcount : l.ipConnections_.count ip ≤ l.totalConnections_)
    (htotal : l.totalConnections_ ≤ l.maxGlobal_) :
    (l.release ip).totalConnections_ + 1 = l.totalConnections_ ∧
      (l.release ip).ipConnections_.total + 1 = l.ipConnections_.total ∧
      ∀ ip', (l.release ip).ipConnections_.count ip' + (if ip' = ip then 1 else 0) =
        l.ipConnections_.count ip' := by
  have hlt := l.maxGlobal_lt
  have htot : (l.release ip).totalConnections_ + 1 = l.totalConnections_ := by
    simp only [release]
    rw [if_pos (by omega)]
    omega
  obtain ⟨n, hn⟩ : ∃ n, l.ipConnections_.lookup ip = some n := by
    cases hn : l.ipConnections_.lookup ip with
    | none =>
        rw [Counters.count, hn] at hip
        cases hip
    | some n => exact ⟨n, rfl⟩
  have hcn : l.ipConnections_.count ip = n := by rw [Counters.count, hn, Option.getD_some]
  have hleft : (n + (2 ^ 64 - 1)) % 2 ^ 64 = n - 1 := by omega
  have hmap : (l.release ip).ipConnections_ =
      if n - 1 = 0 then l.ipConnections_.erase ip else l.ipConnections_.insert ip (n - 1) := by
    simp only [release, hn, hleft]
  refine ⟨htot, ?_, ?_⟩
  · rw [hmap]
    split
    · have := Counters.total_erase l.ipConnections_ ip
      omega
    · have := Counters.total_insert l.ipConnections_ ip (n - 1)
      omega
  · intro ip'
    rw [hmap]
    by_cases h' : ip' = ip
    · subst h'
      split
      · rw [Counters.count_erase]
        simp only [if_true]
        omega
      · rw [Counters.count_insert]
        simp only [if_true]
        omega
    · split
      · rw [Counters.count_erase, if_neg h', Nat.add_zero]
      · rw [Counters.count_insert, if_neg h', Nat.add_zero]

@[simp] theorem release_maxGlobal (l : ConnectionLimiter) (ip : String) :
    (l.release ip).maxGlobal_ = l.maxGlobal_ := rfl

@[simp] theorem release_maxPerIp (l : ConnectionLimiter) (ip : String) :
    (l.release ip).maxPerIp_ = l.maxPerIp_ := rfl

end ConnectionLimiter

/-! ## The server -/

structure ClientCtx where
  clientIp : String
  finished : Bool := false
  /-- The client's thread has returned. -/
  exited : Bool := false
  deriving DecidableEq, Repr

inductive ExitPath
  | receiverReturn
  | exception
  | handshakeTimeout
  deriving DecidableEq, Repr

/-- The return on a handshake timeout is above the line that sets `finished`. -/
def ClientCtx.exit (path : ExitPath) (ctx : ClientCtx) : ClientCtx :=
  match path with
  | .handshakeTimeout => { ctx with exited := true }
  | .receiverReturn | .exception => { ctx with finished := true, exited := true }

/-- `accepting` is the connection that has a slot and is not in the list yet, `cleanup` the position
of `remove_if` while `cleanupFinishedClients` holds `clients_m_`. The last two fields count the slots
taken and given back since the start. -/
structure QubicServer where
  limiter_ : ConnectionLimiter
  clients_ : List ClientCtx := []
  accepting : Option String := none
  cleanup : Option Nat := none
  accepted : Nat := 0
  released : Nat := 0

namespace QubicServer

/-- `connect` is a connection taken by `accept()`, up to the limiter's answer; `createFailed` and
`addClient` are the two ends of `make_qc_by_socket`; `exit` is the return of a client's thread. -/
inductive Event
  | connect (ip : String)
  | createFailed
  | addClient
  | exit (i : Nat) (path : ExitPath)
  | cleanupBegin
  | cleanupVisit
  | cleanupEnd
  deriving DecidableEq, Repr

def release (s : QubicServer) (ip : String) : QubicServer :=
  { s with limiter_ := s.limiter_.release ip, released := s.released + 1 }

/-- The client `remove_if` is at. -/
def visited (s : QubicServer) : Option ClientCtx := s.cleanup.bind fun i => s.clients_[i]?

def step (s : QubicServer) : Event → QubicServer
  | .connect ip =>
      match s.limiter_.tryAccept ip with
      | (true, l) => { s with limiter_ := l, accepting := some ip, accepted := s.accepted + 1 }
      | (false, l) => { s with limiter_ := l }
  | .createFailed =>
      match s.accepting with
      | some ip => { s.release ip with accepting := none }
      | none => s
  | .addClient =>
      match s.accepting with
      | some ip => { s with accepting := none, clients_ := s.clients_ ++ [{ clientIp := ip }] }
      | none => s
  | .exit i path => { s with clients_ := s.clients_.modify i (ClientCtx.exit path) }
  | .cleanupBegin => { s with cleanup := some 0 }
  | .cleanupVisit =>
      match s.cleanup, s.visited with
      | some i, some ctx =>
          if ctx.finished then { s.release ctx.clientIp with clients_ := s.clients_.eraseIdx i }
          else { s with cleanup := some (i + 1) }
      | _, _ => s
  | .cleanupEnd => { s with cleanup := none }

/-- The accept thread has one connection in hand at a time, a client's thread returns once, and
`clients_m_` keeps new clients out of a pass. -/
def Enabled (s : QubicServer) : Event → Prop
  | .connect _ => s.accepting = none
  | .createFailed => s.accepting ≠ none
  | .addClient => s.accepting ≠ none ∧ s.cleanup = none
  | .exit i _ => ∃ ctx, s.clients_[i]? = some ctx ∧ ctx.exited = false
  | .cleanupBegin => s.cleanup = none
  | .cleanupVisit => s.visited ≠ none
  | .cleanupEnd => s.cleanup = some s.clients_.length

theorem exit_enabled_iff (s : QubicServer) (i : Nat) :
    (s.clients_[i]?.filter fun ctx => !ctx.exited).isSome = true ↔
      ∃ ctx, s.clients_[i]? = some ctx ∧ ctx.exited = false := by
  rw [Option.isSome_iff_exists]
  simp only [Option.filter_eq_some_iff, Bool.not_eq_true']

instance (s : QubicServer) (e : Event) : Decidable (Enabled s e) :=
  match e with
  | .connect _ => inferInstanceAs (Decidable (s.accepting = none))
  | .createFailed => inferInstanceAs (Decidable (s.accepting ≠ none))
  | .addClient => inferInstanceAs (Decidable (s.accepting ≠ none ∧ s.cleanup = none))
  | .exit i _ =>
      decidable_of_iff ((s.clients_[i]?.filter fun ctx => !ctx.exited).isSome = true)
        (exit_enabled_iff s i)
  | .cleanupBegin => inferInstanceAs (Decidable (s.cleanup = none))
  | .cleanupVisit => inferInstanceAs (Decidable (s.visited ≠ none))
  | .cleanupEnd => inferInstanceAs (Decidable (s.cleanup = some s.clients_.length))

/-- The address whose slot a step gives back. -/
def releases (s : QubicServer) : Event → Option String
  | .createFailed => s.accepting
  | .cleanupVisit => (s.visited.filter (·.finished)).map (·.clientIp)
  | _ => none

/-- A server that has just started. -/
def start (maxConnections maxPerIp : Nat) (h : maxConnections < 2 ^ 64) : QubicServer :=
  { limiter_ := { maxGlobal_ := maxConnections, maxPerIp_ := maxPerIp, maxGlobal_lt := h } }

/-! ## The counters -/

/-- What the counters must say. -/
structure Accounted (s : QubicServer) : Prop where
  total_eq_sum : s.limiter_.totalConnections_ = s.limiter_.ipConnections_.total
  total_eq_held : s.limiter_.totalConnections_ + s.released = s.accepted
  total_le : s.limiter_.totalConnections_ ≤ s.limiter_.maxGlobal_
  ip_le : ∀ ip, s.limiter_.ipConnections_.count ip ≤ s.limiter_.maxPerIp_

/-- The addresses of the connections that have a slot. -/
def holders (s : QubicServer) : List String := s.accepting.toList ++ s.clients_.map (·.clientIp)

/-- `Accounted`, with the counters read off the connections that have a slot. -/
structure Slots (s : QubicServer) : Prop extends Accounted s where
  total_eq : s.limiter_.totalConnections_ = s.holders.length
  count_eq : ∀ ip, s.limiter_.ipConnections_.count ip = s.holders.count ip

variable {s : QubicServer} {ip : String}

theorem Slots.count_le (h : Slots s) (ip : String) :
    s.limiter_.ipConnections_.count ip ≤ s.limiter_.totalConnections_ := by
  rw [h.count_eq, h.total_eq]
  exact List.count_le_length

/-- A step that moves no slot. -/
theorem Slots.of_holders (h : Slots s) {s' : QubicServer} (hl : s'.limiter_ = s.limiter_)
    (hr : s'.released = s.released) (ha : s'.accepted = s.accepted)
    (hh : s'.holders.Perm s.holders) : Slots s' where
  total_eq_sum := by rw [hl]; exact h.total_eq_sum
  total_eq_held := by rw [hl, hr, ha]; exact h.total_eq_held
  total_le := by rw [hl]; exact h.total_le
  ip_le := by rw [hl]; exact h.ip_le
  total_eq := by rw [hl, hh.length_eq]; exact h.total_eq
  count_eq ip := by rw [hl, hh.count_eq]; exact h.count_eq ip

/-- The release of a slot that is held. -/
theorem Slots.release (h : Slots s) {s' : QubicServer} (hl : s'.limiter_ = s.limiter_.release ip)
    (hr : s'.released = s.released + 1) (ha : s'.accepted = s.accepted)
    (hh : s.holders.Perm (ip :: s'.holders)) : Slots s' := by
  have hpos : 0 < s.limiter_.ipConnections_.count ip := by
    rw [h.count_eq, hh.count_eq, List.count_cons_self]
    exact Nat.succ_pos _
  obtain ⟨htotal, hsum, hcount⟩ := ConnectionLimiter.release_spec hpos (h.count_le ip) h.total_le
  have hlen := hh.length_eq
  rw [List.length_cons] at hlen
  have h1 := h.total_eq_sum
  have h2 := h.total_eq_held
  have h3 := h.total_le
  have h4 := h.total_eq
  refine ⟨⟨?_, ?_, ?_, ?_⟩, ?_, ?_⟩
  · rw [hl]
    omega
  · rw [hl, hr, ha]
    omega
  · rw [hl, ConnectionLimiter.release_maxGlobal]
    omega
  · intro ip'
    have hc := hcount ip'
    have hle := h.ip_le ip'
    rw [hl, ConnectionLimiter.release_maxPerIp]
    omega
  · rw [hl]
    omega
  · intro ip'
    have hc := hcount ip'
    rw [h.count_eq, hh.count_eq, List.count_cons] at hc
    rw [hl]
    by_cases h' : ip' = ip
    · subst h'
      simp only [beq_self_eq_true, if_true] at hc
      omega
    · rw [if_neg h', if_neg (by simpa using Ne.symm h')] at hc
      omega

theorem eq_take_cons_drop {l : List ClientCtx} {i : Nat} {ctx : ClientCtx}
    (h : l[i]? = some ctx) : l = l.take i ++ ctx :: l.drop (i + 1) := by
  obtain ⟨hi, rfl⟩ := List.getElem?_eq_some_iff.1 h
  rw [← List.drop_eq_getElem_cons hi, List.take_append_drop]

theorem modify_eq {l : List ClientCtx} {i : Nat} {ctx : ClientCtx} (f : ClientCtx → ClientCtx)
    (h : l[i]? = some ctx) : l.modify i f = l.take i ++ f ctx :: l.drop (i + 1) := by
  obtain ⟨hi, rfl⟩ := List.getElem?_eq_some_iff.1 h
  rw [List.modify_eq_take_cons_drop hi]

theorem visited_eq_some {ctx : ClientCtx} :
    s.visited = some ctx ↔ ∃ i, s.cleanup = some i ∧ s.clients_[i]? = some ctx := by
  rw [visited, Option.bind_eq_some_iff]

@[simp] theorem exit_clientIp (path : ExitPath) (ctx : ClientCtx) :
    (ctx.exit path).clientIp = ctx.clientIp := by
  cases path <;> rfl

/-- What a step of a pass does: a finished client leaves the list and gives its slot back, and any
other client is left behind the position. -/
theorem step_cleanupVisit {i : Nat} {ctx : ClientCtx} (hi : s.cleanup = some i)
    (hctx : s.clients_[i]? = some ctx) :
    step s .cleanupVisit =
      if ctx.finished then
        { s.release ctx.clientIp with
          clients_ := s.clients_.take i ++ s.clients_.drop (i + 1) }
      else { s with cleanup := some (i + 1) } := by
  have hv : s.visited = some ctx := visited_eq_some.2 ⟨i, hi, hctx⟩
  simp only [step, hi, hv, List.eraseIdx_eq_take_drop_succ]

theorem step_connect_accepted {l : ConnectionLimiter} (h : s.limiter_.tryAccept ip = (true, l)) :
    step s (.connect ip) =
      { s with limiter_ := l, accepting := some ip, accepted := s.accepted + 1 } := by
  simp only [step, h]

theorem step_connect_refused {l : ConnectionLimiter} (h : s.limiter_.tryAccept ip = (false, l)) :
    step s (.connect ip) = { s with limiter_ := l } := by
  simp only [step, h]

theorem Slots.connect (h : Slots s) (he : s.accepting = none) : Slots (step s (.connect ip)) := by
  have hholders : s.holders = s.clients_.map (·.clientIp) := by
    rw [holders, he, Option.toList_none, List.nil_append]
  have h1 := h.total_eq_sum
  have h2 := h.total_eq_held
  have h3 := h.total_le
  have h4 := h.total_eq
  rcases ht : s.limiter_.tryAccept ip with ⟨b, l⟩
  cases b with
  | false =>
      obtain ⟨htotal, hmax, hper, hsum, hcount⟩ := ConnectionLimiter.tryAccept_refused ht
      rw [step_connect_refused ht]
      refine ⟨⟨?_, ?_, ?_, fun ip' => ?_⟩, ?_, fun ip' => ?_⟩ <;> dsimp only
      · rw [htotal, hsum, h1]
      · rw [htotal, h2]
      · rw [htotal, hmax]
        exact h3
      · rw [hcount, hper]
        exact h.ip_le ip'
      · rw [htotal]
        exact h4
      · rw [hcount]
        exact h.count_eq ip'
  | true =>
      obtain ⟨hroom, hroom', htotal, hmax, hper, hsum, hcount⟩ :=
        ConnectionLimiter.tryAccept_accepted (h.count_le ip) ht
      rw [step_connect_accepted ht]
      refine ⟨⟨?_, ?_, ?_, fun ip' => ?_⟩, ?_, fun ip' => ?_⟩ <;> dsimp only
      · omega
      · omega
      · omega
      · have hle := h.ip_le ip'
        rw [hcount, hper]
        split
        · next h' =>
            rw [h']
            exact hroom'
        · exact hle
      · rw [htotal, h4, hholders]
        rfl
      · rw [hcount, h.count_eq, hholders]
        simp only [holders, Option.toList_some, List.singleton_append, List.count_cons]
        by_cases h' : ip' = ip
        · rw [if_pos h', if_pos (by simpa using h'.symm)]
        · rw [if_neg h', if_neg (by simpa using Ne.symm h')]

theorem Slots.step (h : Slots s) {e : Event} (he : Enabled s e) : Slots (step s e) := by
  cases e with
  | connect ip => exact h.connect he
  | createFailed =>
      obtain ⟨ip, hip⟩ := Option.ne_none_iff_exists'.1 he
      have hs : QubicServer.step s .createFailed = { s.release ip with accepting := none } := by
        simp only [QubicServer.step, hip]
      rw [hs]
      refine h.release rfl rfl rfl ?_
      rw [holders, hip]
      exact List.Perm.refl _
  | addClient =>
      obtain ⟨ip, hip⟩ := Option.ne_none_iff_exists'.1 he.1
      have hs : QubicServer.step s .addClient =
          { s with accepting := none, clients_ := s.clients_ ++ [{ clientIp := ip }] } := by
        simp only [QubicServer.step, hip]
      rw [hs]
      refine h.of_holders rfl rfl rfl ?_
      simp only [holders, hip, Option.toList_none, List.nil_append, List.map_append]
      exact List.perm_append_comm
  | exit i path =>
      obtain ⟨ctx, hctx, -⟩ := he
      refine h.of_holders rfl rfl rfl ?_
      have hmap : (s.clients_.modify i (ClientCtx.exit path)).map (·.clientIp) =
          s.clients_.map (·.clientIp) := by
        rw [modify_eq _ hctx]
        conv_rhs => rw [eq_take_cons_drop hctx]
        simp only [List.map_append, List.map_cons, exit_clientIp]
      simp only [QubicServer.step, holders, hmap]
      exact List.Perm.refl _
  | cleanupBegin => exact h.of_holders rfl rfl rfl (List.Perm.refl _)
  | cleanupVisit =>
      obtain ⟨ctx, hctx⟩ := Option.ne_none_iff_exists'.1 he
      obtain ⟨i, hi, hctx⟩ := visited_eq_some.1 hctx
      rw [step_cleanupVisit hi hctx]
      split
      · refine h.release rfl rfl rfl ?_
        simp only [holders]
        conv_lhs => rw [eq_take_cons_drop hctx]
        simp only [List.map_append, List.map_cons, QubicServer.release]
        rw [← List.append_assoc, ← List.append_assoc]
        exact List.perm_middle
      · exact h.of_holders rfl rfl rfl (List.Perm.refl _)
  | cleanupEnd => exact h.of_holders rfl rfl rfl (List.Perm.refl _)

/-- The slot that a step gives back is held. -/
theorem Slots.no_underflow (h : Slots s) {e : Event} (hip : s.releases e = some ip) :
    0 < s.limiter_.ipConnections_.count ip ∧ 0 < s.limiter_.totalConnections_ := by
  have hmem : ip ∈ s.holders := by
    cases e with
    | createFailed => exact List.mem_append_left _ (by simpa [releases] using hip)
    | cleanupVisit =>
        simp only [releases, Option.map_eq_some_iff, Option.filter_eq_some_iff] at hip
        obtain ⟨ctx, ⟨hctx, -⟩, rfl⟩ := hip
        obtain ⟨i, -, hi⟩ := visited_eq_some.1 hctx
        exact List.mem_append_right _ (List.mem_map_of_mem (List.mem_of_getElem? hi))
    | connect _ | addClient | exit _ _ | cleanupBegin | cleanupEnd => cases hip
  have hpos : 0 < s.limiter_.ipConnections_.count ip := by
    rw [h.count_eq]
    exact List.count_pos_iff.2 hmem
  exact ⟨hpos, hpos.trans_le (h.count_le ip)⟩

/-! ## The clients that stay -/

def Event.isTimeout : Event → Bool
  | .exit _ .handshakeTimeout => true
  | _ => false

/-- What a step does to the client list. -/
theorem clients_step {e : Event} (he : Enabled s e) :
    (e.isTimeout = false ∧ (step s e).clients_ = s.clients_) ∨
    (∃ ip, e = .addClient ∧ (step s e).clients_ = s.clients_ ++ [{ clientIp := ip }]) ∨
    (∃ i path l ctx r, e = .exit i path ∧ ctx.exited = false ∧ s.clients_ = l ++ ctx :: r ∧
      (step s e).clients_ = l ++ ctx.exit path :: r) ∨
    (∃ l ctx r, e = .cleanupVisit ∧ ctx.finished = true ∧ s.clients_ = l ++ ctx :: r ∧
      (step s e).clients_ = l ++ r) := by
  cases e with
  | connect ip =>
      left
      rcases ht : s.limiter_.tryAccept ip with ⟨b, l⟩
      cases b with
      | false => rw [step_connect_refused ht]; exact ⟨rfl, rfl⟩
      | true => rw [step_connect_accepted ht]; exact ⟨rfl, rfl⟩
  | createFailed =>
      left
      obtain ⟨ip, hip⟩ := Option.ne_none_iff_exists'.1 he
      simp only [step, hip]
      exact ⟨rfl, rfl⟩
  | addClient =>
      obtain ⟨ip, hip⟩ := Option.ne_none_iff_exists'.1 he.1
      exact .inr (.inl ⟨ip, rfl, by simp only [step, hip]⟩)
  | exit i path =>
      obtain ⟨ctx, hctx, hrun⟩ := he
      exact .inr (.inr (.inl ⟨i, path, _, ctx, _, rfl, hrun, eq_take_cons_drop hctx,
        modify_eq _ hctx⟩))
  | cleanupVisit =>
      obtain ⟨ctx, hctx⟩ := Option.ne_none_iff_exists'.1 he
      obtain ⟨i, hi, hctx⟩ := visited_eq_some.1 hctx
      cases hfin : ctx.finished with
      | true =>
          refine .inr (.inr (.inr ⟨_, ctx, _, rfl, hfin, eq_take_cons_drop hctx, ?_⟩))
          rw [step_cleanupVisit hi hctx, if_pos hfin]
      | false =>
          refine .inl ⟨rfl, ?_⟩
          rw [step_cleanupVisit hi hctx, if_neg (by simp [hfin])]
  | cleanupBegin => exact .inl ⟨rfl, rfl⟩
  | cleanupEnd => exact .inl ⟨rfl, rfl⟩

/-- The clients whose thread has returned without setting `finished`. -/
def unfinished (s : QubicServer) : Nat := s.clients_.countP fun ctx => ctx.exited && !ctx.finished

/-- `finished` is set by the client's own thread. -/
def FinishedExited (s : QubicServer) : Prop :=
  ∀ ctx ∈ s.clients_, ctx.finished = true → ctx.exited = true

theorem FinishedExited.step (h : FinishedExited s) {e : Event} (he : Enabled s e) :
    FinishedExited (step s e) := by
  intro ctx hmem hfin
  rcases clients_step he with ⟨-, hs⟩ | ⟨ip, -, hs⟩ | ⟨i, path, l, c, r, -, -, hl, hs⟩ |
    ⟨l, c, r, -, -, hl, hs⟩
  · exact h ctx (hs ▸ hmem) hfin
  · rw [hs] at hmem
    rcases List.mem_append.1 hmem with hmem | hmem
    · exact h ctx hmem hfin
    · obtain rfl := List.mem_singleton.1 hmem
      cases hfin
  · rw [hs, List.mem_append, List.mem_cons] at hmem
    have hsub : ∀ c' ∈ l ++ r, c' ∈ s.clients_ := by
      intro c' hc'
      rw [hl, List.mem_append, List.mem_cons]
      exact (List.mem_append.1 hc').imp id Or.inr
    rcases hmem with hmem | rfl | hmem
    · exact h ctx (hsub ctx (List.mem_append_left _ hmem)) hfin
    · cases path <;> rfl
    · exact h ctx (hsub ctx (List.mem_append_right _ hmem)) hfin
  · refine h ctx ?_ hfin
    rw [hs] at hmem
    rw [hl, List.mem_append, List.mem_cons]
    exact (List.mem_append.1 hmem).imp id Or.inr

/-- Only an exit by the handshake timeout adds a client that stays, and no step removes one. -/
theorem unfinished_step (h : FinishedExited s) {e : Event} (he : Enabled s e) :
    (step s e).unfinished = s.unfinished + (if e.isTimeout then 1 else 0) := by
  rcases clients_step he with ⟨ht, hs⟩ | ⟨ip, rfl, hs⟩ | ⟨i, path, l, ctx, r, rfl, hrun, hl, hs⟩ |
    ⟨l, ctx, r, rfl, hfin, hl, hs⟩
  · rw [unfinished, hs, ht]
    rfl
  · rw [unfinished, hs, List.countP_append]
    rfl
  · have hctx : ctx.finished = false := by
      cases hfin : ctx.finished with
      | false => rfl
      | true =>
          have hmem : ctx ∈ s.clients_ := by
            rw [hl]
            exact List.mem_append_right _ List.mem_cons_self
          rw [h ctx hmem hfin] at hrun
          cases hrun
    rw [unfinished, unfinished, hs, hl]
    simp only [List.countP_append, List.countP_cons]
    cases path <;> simp [ClientCtx.exit, Event.isTimeout, hrun, hctx, Nat.add_assoc]
  · rw [unfinished, unfinished, hs, hl]
    simp [hfin, Event.isTimeout]

/-- No connection is on its way in and every client's thread has returned. -/
def AllExited (s : QubicServer) : Prop :=
  s.accepting = none ∧ ∀ ctx ∈ s.clients_, ctx.exited = true

/-- No client that the pass has gone past, and after a pass no client at all, is finished. -/
def Swept (s : QubicServer) : Prop :=
  ∀ ctx ∈ s.clients_.take (s.cleanup.getD s.clients_.length), ctx.finished = false

theorem accepted_le_step (s : QubicServer) (e : Event) : s.accepted ≤ (step s e).accepted := by
  cases e with
  | connect ip =>
      rcases ht : s.limiter_.tryAccept ip with ⟨b, l⟩
      cases b with
      | false => rw [step_connect_refused ht]
      | true =>
          rw [step_connect_accepted ht]
          exact Nat.le_succ _
  | createFailed | addClient =>
      simp only [step]
      split <;> exact le_rfl
  | cleanupVisit =>
      simp only [step]
      split
      · split <;> exact le_rfl
      · exact le_rfl
  | exit _ _ | cleanupBegin | cleanupEnd => exact le_rfl

theorem accepted_le_run (s : QubicServer) (es : List Event) :
    s.accepted ≤ (Runs.run step s es).accepted := by
  induction es generalizing s with
  | nil => exact le_rfl
  | cons e es ih => exact (accepted_le_step s e).trans (ih _)

/-- After all the clients have exited, a step that takes no connection in brings the pass forward. -/
theorem AllExited.step (h : AllExited s) {e : Event} (he : Enabled s e)
    (hacc : (step s e).accepted = s.accepted) :
    AllExited (step s e) ∧ (Swept s ∨ e = .cleanupBegin → Swept (step s e)) ∧
      e.isTimeout = false := by
  cases e with
  | connect ip =>
      rcases ht : s.limiter_.tryAccept ip with ⟨b, l⟩
      cases b with
      | false =>
          rw [step_connect_refused ht]
          exact ⟨h, fun hor => hor.resolve_right nofun, rfl⟩
      | true =>
          rw [step_connect_accepted ht] at hacc
          exact absurd hacc (Nat.succ_ne_self _)
  | createFailed => exact absurd h.1 he
  | addClient => exact absurd h.1 he.1
  | exit i path =>
      obtain ⟨ctx, hctx, hrun⟩ := he
      rw [h.2 ctx (List.mem_of_getElem? hctx)] at hrun
      cases hrun
  | cleanupBegin =>
      refine ⟨h, fun _ ctx hmem => ?_, rfl⟩
      simp only [QubicServer.step, Option.getD_some, List.take_zero] at hmem
      cases hmem
  | cleanupVisit =>
      obtain ⟨ctx, hctx⟩ := Option.ne_none_iff_exists'.1 he
      obtain ⟨i, hi, hctx⟩ := visited_eq_some.1 hctx
      obtain ⟨hlt, -⟩ := List.getElem?_eq_some_iff.1 hctx
      rw [step_cleanupVisit hi hctx]
      split
      · refine ⟨⟨h.1, fun c hc => ?_⟩, fun hor c hc => ?_, rfl⟩
        · refine h.2 c ?_
          rw [eq_take_cons_drop hctx, List.mem_append, List.mem_cons]
          exact (List.mem_append.1 hc).imp id Or.inr
        · have hswept := hor.resolve_right nofun
          refine hswept c ?_
          simp only [release, hi, Option.getD_some] at hc ⊢
          rwa [List.take_append_of_le_length (by rw [List.length_take]; omega),
            List.take_take, min_self] at hc
      · next hfin =>
        refine ⟨h, fun hor c hc => ?_, rfl⟩
        have hswept := hor.resolve_right nofun
        simp only [Option.getD_some] at hc
        rw [List.take_add_one, hctx, List.mem_append] at hc
        rcases hc with hc | hc
        · exact hswept c (by rwa [hi])
        · obtain rfl := List.mem_singleton.1 hc
          simpa using hfin
  | cleanupEnd =>
      refine ⟨h, fun hor c hc => ?_, rfl⟩
      have hswept := hor.resolve_right nofun
      have hend : s.cleanup = some s.clients_.length := he
      exact hswept c (by rwa [hend])

open Runs in
/-- After all the clients have exited, a pass leaves those that exited by the handshake timeout. -/
theorem allExited_run (h : AllExited s) (hf : FinishedExited s) {es : List Event}
    (hes : Guarded step Enabled s es) (hacc : (run step s es).accepted = s.accepted) :
    AllExited (run step s es) ∧ (Swept s ∨ .cleanupBegin ∈ es → Swept (run step s es)) ∧
      (run step s es).unfinished = s.unfinished := by
  induction es generalizing s with
  | nil => exact ⟨h, fun hor => hor.resolve_right (List.not_mem_nil), rfl⟩
  | cons e es ih =>
      have hle := accepted_le_run (step s e) es
      have hstep : (step s e).accepted = s.accepted :=
        le_antisymm (hle.trans_eq hacc) (accepted_le_step s e)
      obtain ⟨hall, hswept, htime⟩ := h.step hes.1 hstep
      obtain ⟨hall', hswept', hunf⟩ := ih hall (hf.step hes.1) hes.2 (hacc.trans hstep.symm)
      refine ⟨hall', fun hor => hswept' ?_, ?_⟩
      · rcases hor with hs | hs
        · exact .inl (hswept (.inl hs))
        · rcases List.mem_cons.1 hs with he | hs
          · exact .inl (hswept (.inr he.symm))
          · exact .inr hs
      · rw [run_cons, hunf, unfinished_step hf hes.1, htime]
        rfl

theorem start_slots (g p : Nat) (hg : g < 2 ^ 64) : Slots (start g p hg) where
  total_eq_sum := rfl
  total_eq_held := rfl
  total_le := Nat.zero_le _
  ip_le _ := Nat.zero_le _
  total_eq := rfl
  count_eq _ := rfl

open Runs in
theorem unfinished_run {es : List Event} (hf : FinishedExited s)
    (hes : Guarded step Enabled s es) :
    (run step s es).unfinished = s.unfinished + es.countP Event.isTimeout := by
  induction es generalizing s with
  | nil => rfl
  | cons e es ih =>
      rw [run_cons, ih (hf.step hes.1) hes.2, unfinished_step hf hes.1, List.countP_cons]
      omega

/-- After a whole pass over clients that have all exited, the total counts those that stay. -/
theorem Slots.total_eq_unfinished (h : Slots s) (hall : AllExited s) (hswept : Swept s)
    (hpass : s.cleanup = none) : s.limiter_.totalConnections_ = s.unfinished := by
  have hstay : ∀ ctx ∈ s.clients_, (ctx.exited && !ctx.finished) = true := by
    intro ctx hctx
    have hfin := hswept ctx (by rwa [hpass, Option.getD_none, List.take_length])
    rw [hall.2 ctx hctx, hfin]
    rfl
  rw [h.total_eq, holders, hall.1, unfinished, List.countP_eq_length.2 hstay]
  simp

open Runs in
/-- In every run the counters agree, stay in their bounds and are positive where they are counted
down. Once every client's thread has exited, a further pass of the cleanup, with no connection taken
in meanwhile, brings the total to 0 exactly when no client exited by the handshake timeout. -/
theorem connection_slots (maxConnections maxPerIp : Nat) (hmax : maxConnections < 2 ^ 64)
    (es : List Event) (hes : Guarded step Enabled (start maxConnections maxPerIp hmax) es) :
    let s := run step (start maxConnections maxPerIp hmax) es
    Accounted s ∧
      (∀ e ip, Enabled s e → s.releases e = some ip →
        0 < s.limiter_.ipConnections_.count ip ∧ 0 < s.limiter_.totalConnections_) ∧
      (s.accepting = none → (∀ ctx ∈ s.clients_, ctx.exited = true) →
        ∀ es', Guarded step Enabled s es' → (run step s es').accepted = s.accepted →
          .cleanupBegin ∈ es' → (run step s es').cleanup = none →
            ((run step s es').limiter_.totalConnections_ = 0 ↔
              ∀ i, .exit i .handshakeTimeout ∉ es)) := by
  intro s
  have hstep : ∀ s e, (Slots s ∧ FinishedExited s) → Enabled s e →
      (Slots (step s e) ∧ FinishedExited (step s e)) :=
    fun s e h he => ⟨h.1.step he, h.2.step he⟩
  have hstart : FinishedExited (start maxConnections maxPerIp hmax) :=
    fun ctx hctx => nomatch hctx
  have hs : Slots s ∧ FinishedExited s :=
    run_invariant hstep ⟨start_slots _ _ hmax, hstart⟩ hes
  refine ⟨hs.1.toAccounted, fun e ip _ hip => hs.1.no_underflow hip, ?_⟩
  intro hacc hexit es' hes' hno hbegin hpass
  have hs' : Slots (run step s es') ∧ FinishedExited (run step s es') :=
    run_invariant hstep hs hes'
  obtain ⟨hall, hswept, hunf⟩ := allExited_run ⟨hacc, hexit⟩ hs.2 hes' hno
  have hcount : s.unfinished = es.countP Event.isTimeout :=
    (unfinished_run hstart hes).trans (Nat.zero_add _)
  rw [hs'.1.total_eq_unfinished hall (hswept (.inr hbegin)) hpass, hunf, hcount,
    List.countP_eq_zero]
  constructor
  · intro h i hi
    exact h _ hi rfl
  · intro h e he htime
    cases e with
    | exit i path =>
        cases path with
        | handshakeTimeout => exact h i he
        | receiverReturn | exception => cases htime
    | connect _ | createFailed | addClient | cleanupBegin | cleanupVisit | cleanupEnd =>
        cases htime

/-- One connection whose client returns from its receiver, one whose creation fails. -/
def twoConnections : List Event :=
  [.connect "10.0.0.1", .addClient, .connect "10.0.0.2", .exit 0 .receiverReturn, .createFailed]

/-- One connection whose client exits by the handshake timeout. -/
def slowHandshake : List Event := [.connect "10.0.0.1", .addClient, .exit 0 .handshakeTimeout]

def onePass : List Event := [.cleanupBegin, .cleanupVisit, .cleanupEnd]

theorem default_max_lt : 64 < 2 ^ 64 := by decide

open Runs in
theorem connection_slots_twoConnections :
    (run step (run step (start 64 5 default_max_lt) twoConnections) onePass
      ).limiter_.totalConnections_ = 0 :=
  ((connection_slots 64 5 default_max_lt twoConnections (by decide)).2.2 (by decide) (by decide)
    onePass (by decide) (by decide) (by decide) (by decide)).2 (by simp [twoConnections])

open Runs in
/-- The slot of a client that exits by the handshake timeout is never given back. -/
theorem slowHandshake_keeps_slot :
    ¬ ∀ es es', Guarded step Enabled (start 64 5 default_max_lt) es →
      (run step (start 64 5 default_max_lt) es).accepting = none →
      (∀ ctx ∈ (run step (start 64 5 default_max_lt) es).clients_, ctx.exited = true) →
      Guarded step Enabled (run step (start 64 5 default_max_lt) es) es' →
      (run step (run step (start 64 5 default_max_lt) es) es').accepted =
        (run step (start 64 5 default_max_lt) es).accepted →
      .cleanupBegin ∈ es' → (run step (run step (start 64 5 default_max_lt) es) es').cleanup = none →
      (run step (run step (start 64 5 default_max_lt) es) es').limiter_.totalConnections_ = 0 := by
  intro h
  have hzero := h slowHandshake onePass (by decide) (by decide) (by decide) (by decide) (by decide)
    (by decide) (by decide)
  exact absurd hzero (by decide)

end QubicServer

end QubicBob
