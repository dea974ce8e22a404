import Lnpl.Drivers.Equiv.HmacTokenProvider
import Lnpl.Drivers.RotatingKeys

/-!
# Rotation of the keys

The lock is held by the one call that refreshes, so the pair that its read returned is the last one
when it is installed, and a call that fetches the keys gets the pair of one read.
-/

namespace Lnpl.Drivers.Rotation

open Lib.JsonText (Codecs Fields)
open Tokens (Hmac HmacTokenProvider refusedKeys)

/-! ### Pairs -/

variable {p q : HmacTokenProvider} {pair : KeyPair} {result : Except RefreshError KeyPair}

theorem successful_ok (pair : KeyPair) :
    successful (.ok pair) = if (refusedKeys pair.1 pair.2).isNone then some pair else none :=
  rfl

theorem successful_eq_some (h : successful result = some pair) :
    result = .ok pair ∧ refusedKeys pair.1 pair.2 = none := by
  cases result with
  | error e => cases h
  | ok pair' =>
    rw [successful_ok] at h
    cases hrefused : refusedKeys pair'.1 pair'.2 with
    | none =>
      rw [hrefused] at h
      have heq : pair' = pair := Option.some.inj h
      rw [← heq]
      exact ⟨rfl, hrefused⟩
    | some error =>
      rw [hrefused] at h
      cases h

theorem map_raw (previous : Option (List UInt8)) :
    (previous.map Tokens.Secret.bytes).map Tokens.Secret.raw = previous := by
  cases previous with
  | none => rfl
  | some key => rfl

/-- `_set_keys` takes the pairs of successful reads. -/
theorem setKeys_cases (p : HmacTokenProvider) (current : List UInt8)
    (previous : Option (List UInt8)) :
    (refusedKeys current previous ≠ none ∧
      ∃ e, p.setKeys (.bytes current) (previous.map .bytes) = .error e) ∨
    (refusedKeys current previous = none ∧
      ∃ q, p.setKeys (.bytes current) (previous.map .bytes) = .ok q ∧
        pairOf q = (current, previous) ∧ q.issuer = p.issuer) := by
  have hraw : refusedKeys (Tokens.Secret.bytes current).raw
      ((previous.map Tokens.Secret.bytes).map Tokens.Secret.raw) =
      refusedKeys current previous := by
    rw [map_raw]
    rfl
  unfold HmacTokenProvider.setKeys
  split
  · next error herror =>
    rw [hraw] at herror
    rw [herror]
    exact .inl ⟨Option.some_ne_none error, error, rfl⟩
  · next hnone =>
    rw [hraw] at hnone
    exact .inr ⟨hnone, _, rfl, Prod.ext rfl (map_raw previous), rfl⟩

/-- What an installation does with the result of a read. -/
theorem install_cases (p : HmacTokenProvider) (result : Except RefreshError KeyPair) :
    (successful result = none ∧ ∃ e, install p result = .error e) ∨
    (∃ pair q, result = .ok pair ∧ successful result = some pair ∧ install p result = .ok q ∧
      pairOf q = pair ∧ q.issuer = p.issuer) := by
  cases result with
  | error e => exact .inl ⟨rfl, e, rfl⟩
  | ok pair =>
    obtain ⟨current, previous⟩ := pair
    rw [successful_ok]
    unfold install
    dsimp only
    obtain ⟨hrefused, e, he⟩ | ⟨hnone, q, hq, hpair, hissuer⟩ := setKeys_cases p current previous
    · left
      rw [he]
      cases hcase : refusedKeys current previous with
      | none => exact absurd hcase hrefused
      | some error => exact ⟨rfl, _, rfl⟩
    · right
      rw [hq, hnone]
      exact ⟨_, q, rfl, rfl, rfl, hpair, hissuer⟩

/-! ### Verification under a pair -/

variable {codecs : Codecs} {depth : Nat} {hmac : Hmac} {issuer : String} {wall : Int}
  {token : List Char} {audience : String} {key : List UInt8} {claims : Fields}

/-- A provider that has the key among others accepts what one with only that key accepts. -/
theorem AcceptedWith.verify
    (h : AcceptedWith codecs depth hmac key issuer wall token audience claims)
    (hkey : key = p.current ∨ p.previous = some key) (hissuer : p.issuer = issuer) :
    p.verify codecs depth hmac wall token audience = .ok claims := by
  obtain ⟨q, hpair, hq, hverify⟩ := h
  obtain ⟨encodedHeader, encodedClaims, encodedSignature, header, hsplit, hheader, halg, htyp,
    ⟨message, mac, key', hmessage, hdecodes, hmem, hmac'⟩, hclaims, hhold⟩ :=
    Tokens.verify_eq_ok_iff.mp hverify
  obtain ⟨hcurrent, hprevious⟩ := Prod.mk.inj hpair
  have hkey' : key' = key := by
    rw [HmacTokenProvider.keys, hcurrent, hprevious] at hmem
    simpa using hmem
  have hkeys : some key' ∈ p.keys := by
    rw [hkey', HmacTokenProvider.keys]
    rcases hkey with hkey | hkey
    · rw [hkey]
      simp
    · rw [hkey]
      simp
  have hsame : p.issuer = q.issuer := hissuer.trans hq.symm
  apply Tokens.verify_eq_ok_iff.mpr
  refine ⟨encodedHeader, encodedClaims, encodedSignature, header, hsplit, hheader, halg, htyp,
    ⟨message, mac, key', hmessage, hdecodes, hkeys, hmac'⟩, hclaims, ?_⟩
  exact ⟨by rw [hsame]; exact hhold.iss, hhold.aud, hhold.exp, hhold.nbf⟩

/-! ### The machine -/

variable {ρ : Type} [DecidableEq ρ] {refreshS : Rat} {calls : ρ → Call} {s : Machine ρ}
  {m : Move ρ} {c c' : ρ} {phase : Phase}

@[simp] theorem to_phase_self : (s.to c phase).phase c = phase := by
  simp [Machine.to]

theorem to_phase_of_ne (h : c' ≠ c) : (s.to c phase).phase c' = s.phase c' := by
  simp [Machine.to, Function.update_of_ne h]

/-- What a call that has fetched the keys, or has ended, owes to the reads so far. -/
def Settled (codecs : Codecs) (depth : Nat) (hmac : Hmac) (issuer : String) (reads : List KeyPair)
    (call : Call) : Phase → Prop
  | .fetched p last => pairOf p = last ∧ p.issuer = issuer ∧ last ∈ reads
  | .ended outcome last => call.lazy = true → last ∈ reads ∧
    ∃ p wall, pairOf p = last ∧ p.issuer = issuer ∧
      outcome = useKeys codecs depth hmac p wall call
  | _ => True

/-- A read has returned a pair that is not installed yet. -/
def Machine.Pending (s : Machine ρ) (c : ρ) (pair : KeyPair) : Prop :=
  ∃ result, s.phase c = .read result ∧ successful result = some pair

/-- What every step keeps. -/
structure Sound (codecs : Codecs) (depth : Nat) (hmac : Hmac) (calls : ρ → Call) (issuer : String)
    (s : Machine ρ) : Prop where
  lock : ∀ c, (s.phase c).refreshing = true → s.lock = some c
  settled : ∀ c, Settled codecs depth hmac issuer s.reads (calls c) (s.phase c)
  issuer : s.provider.issuer = issuer
  last : pairOf s.provider = s.lastRead
  reads : ((∀ c pair, ¬s.Pending c pair) ∧ ∃ older, s.reads = s.lastRead :: older) ∨
    ∃ c pair older, s.Pending c pair ∧ s.reads = pair :: s.lastRead :: older

theorem Settled.mono {reads reads' : List KeyPair} {call : Call}
    (h : Settled codecs depth hmac issuer reads call phase)
    (hreads : ∀ pair ∈ reads, pair ∈ reads') :
    Settled codecs depth hmac issuer reads' call phase := by
  cases phase with
  | fetched p last => exact ⟨h.1, h.2.1, hreads last h.2.2⟩
  | ended outcome last =>
    intro hlazy
    obtain ⟨hmem, hend⟩ := h hlazy
    exact ⟨hreads last hmem, hend⟩
  | idle | stale | holding | due | reading | got _ | read _ | installed _ | recorded _ | ready =>
    trivial

omit [DecidableEq ρ] in
theorem pending_unique {pair pair' : KeyPair} (h : Sound codecs depth hmac calls issuer s)
    (hc : s.Pending c pair) (hc' : s.Pending c' pair') : c = c' := by
  obtain ⟨result, hphase, -⟩ := hc
  obtain ⟨result', hphase', -⟩ := hc'
  have hlock := h.lock c (by rw [hphase]; rfl)
  have hlock' := h.lock c' (by rw [hphase']; rfl)
  exact Option.some.inj (hlock.symm.trans hlock')

omit [DecidableEq ρ] in
theorem sound_start (p : HmacTokenProvider) (now : Rat) :
    Sound codecs depth hmac calls p.issuer (Machine.start p now : Machine ρ) where
  lock c h := absurd h Bool.false_ne_true
  settled c := trivial
  issuer := rfl
  last := rfl
  reads := by
    refine .inl ⟨?_, [], rfl⟩
    rintro c pair ⟨result, hphase, -⟩
    cases hphase

section

variable (h : Sound codecs depth hmac calls issuer s)
include h

section

variable (hold : ∀ pair, ¬s.Pending c pair)
include hold

/-- A call that has no read to install moves on, the keys and the reads being as they were. -/
theorem Sound.move (phase : Phase) {lock : Option ρ}
    (hself : phase.refreshing = true → lock = some c)
    (hothers : ∀ c', c' ≠ c → (s.phase c').refreshing = true → lock = some c')
    (hsettled : Settled codecs depth hmac issuer s.reads (calls c) phase)
    (hnew : ∀ result, phase = .read result → successful result = none) (readAt : Rat)
    (lastReadOk : Bool) :
    Sound codecs depth hmac calls issuer
      { s.to c phase with
        lock := lock
        readAt := readAt
        lastReadOk := lastReadOk } := by
  have hpending : ∀ c' pair, (s.to c phase).Pending c' pair ↔ s.Pending c' pair := by
    intro c' pair
    unfold Machine.Pending
    by_cases hc : c' = c
    · rw [hc, to_phase_self]
      refine iff_of_false ?_ (hold pair)
      rintro ⟨result, hphase, hsuccess⟩
      rw [hnew result hphase] at hsuccess
      cases hsuccess
    · rw [to_phase_of_ne hc]
  refine ⟨?_, ?_, h.issuer, h.last, ?_⟩
  · intro c' hc'
    show lock = some c'
    change ((s.to c phase).phase c').refreshing = true at hc'
    by_cases hc : c' = c
    · rw [hc, to_phase_self] at hc'
      rw [hc]
      exact hself hc'
    · rw [to_phase_of_ne hc] at hc'
      exact hothers c' hc hc'
  · intro c'
    show Settled codecs depth hmac issuer s.reads (calls c') ((s.to c phase).phase c')
    by_cases hc : c' = c
    · rw [hc, to_phase_self]
      exact hsettled
    · rw [to_phase_of_ne hc]
      exact h.settled c'
  · obtain ⟨hnone, older, hreads⟩ | ⟨c', pair, older, hpair, hreads⟩ := h.reads
    · exact .inl ⟨fun c' pair hc' => hnone c' pair ((hpending c' pair).mp hc'), older, hreads⟩
    · exact .inr ⟨c', pair, older, (hpending c' pair).mpr hpair, hreads⟩

/-- A step outside the lock, or within it. -/
theorem Sound.stay (phase : Phase)
    (hrefreshing : phase.refreshing = true → (s.phase c).refreshing = true)
    (hsettled : Settled codecs depth hmac issuer s.reads (calls c) phase)
    (hnew : ∀ result, phase = .read result → successful result = none) (readAt : Rat)
    (lastReadOk : Bool) :
    Sound codecs depth hmac calls issuer
      { s.to c phase with
        readAt := readAt
        lastReadOk := lastReadOk } :=
  h.move hold phase (fun hphase => h.lock c (hrefreshing hphase)) (fun c' _ hc' => h.lock c' hc')
    hsettled hnew readAt lastReadOk

/-- The acquisition of the lock. -/
theorem Sound.acquire (hlock : s.lock = none) :
    Sound codecs depth hmac calls issuer { s.to c .holding with lock := some c } := by
  refine h.move hold .holding (fun _ => rfl) ?_ trivial (fun _ hphase => (nomatch hphase)) _ _
  intro c' _ hc'
  have hother := h.lock c' hc'
  rw [hlock] at hother
  cases hother

end

/-- The release of the lock. -/
theorem Sound.release (hheld : (s.phase c).refreshing = true) (hold : ∀ pair, ¬s.Pending c pair)
    (phase : Phase) (hfree : phase.refreshing = false)
    (hsettled : Settled codecs depth hmac issuer s.reads (calls c) phase)
    (hnew : ∀ result, phase = .read result → successful result = none) :
    Sound codecs depth hmac calls issuer { s.to c phase with lock := none } := by
  refine h.move hold phase ?_ ?_ hsettled hnew _ _
  · intro hphase
    rw [hfree] at hphase
    cases hphase
  · intro c' hne hc'
    have hsame := (h.lock c' hc').symm.trans (h.lock c hheld)
    exact absurd (Option.some.inj hsame) hne

/-- A read returns. -/
theorem Sound.returns (hheld : (s.phase c).refreshing = true) (hold : ∀ pair, ¬s.Pending c pair)
    (result : Except RefreshError KeyPair) :
    Sound codecs depth hmac calls issuer
      { s.to c (.read result) with reads := (successful result).toList ++ s.reads } := by
  cases hsuccess : successful result with
  | none =>
    exact h.stay hold (.read result) (fun _ => hheld) trivial
      (fun result' hphase => by rw [← Phase.read.inj hphase]; exact hsuccess) _ _
  | some pair =>
    -- no other read is pending, since its call would hold the lock as well
    have hnone : ∀ c' pair', ¬s.Pending c' pair' := by
      rintro c' pair' ⟨result', hphase, hsuccess'⟩
      have hlock := h.lock c' (by rw [hphase]; rfl)
      have hc : c' = c := Option.some.inj (hlock.symm.trans (h.lock c hheld))
      rw [hc] at hphase
      exact hold pair' ⟨result', hphase, hsuccess'⟩
    have hreads : ∃ older, s.reads = s.lastRead :: older := by
      obtain ⟨-, hreads⟩ | ⟨c', pair', older, hpair, -⟩ := h.reads
      · exact hreads
      · exact absurd hpair (hnone c' pair')
    obtain ⟨older, hreads⟩ := hreads
    refine ⟨?_, ?_, h.issuer, h.last, ?_⟩
    · intro c' hc'
      show s.lock = some c'
      change ((s.to c (.read result)).phase c').refreshing = true at hc'
      by_cases hc : c' = c
      · rw [hc]
        exact h.lock c hheld
      · rw [to_phase_of_ne hc] at hc'
        exact h.lock c' hc'
    · intro c'
      show Settled codecs depth hmac issuer (pair :: s.reads) (calls c')
        ((s.to c (.read result)).phase c')
      by_cases hc : c' = c
      · rw [hc, to_phase_self]
        trivial
      · rw [to_phase_of_ne hc]
        exact (h.settled c').mono fun pair' hpair' => List.mem_cons_of_mem pair hpair'
    · refine .inr ⟨c, pair, older, ⟨result, to_phase_self, hsuccess⟩, ?_⟩
      show pair :: s.reads = pair :: s.lastRead :: older
      rw [hreads]

/-- A pair that was read is installed. -/
theorem Sound.installs {pair : KeyPair} (hpair : s.Pending c pair) (hq : pairOf q = pair)
    (hissuer : q.issuer = s.provider.issuer) :
    Sound codecs depth hmac calls issuer
      { s.to c (.installed (.ok ())) with
        provider := q
        lastRead := pairOf q } := by
  have hheld : (s.phase c).refreshing = true := by
    obtain ⟨result, hphase, -⟩ := hpair
    rw [hphase]
    rfl
  refine ⟨?_, ?_, hissuer.trans h.issuer, rfl, .inl ⟨?_, ?_⟩⟩
  · intro c' hc'
    show s.lock = some c'
    change ((s.to c (.installed (.ok ()))).phase c').refreshing = true at hc'
    by_cases hc : c' = c
    · rw [hc]
      exact h.lock c hheld
    · rw [to_phase_of_ne hc] at hc'
      exact h.lock c' hc'
  · intro c'
    show Settled codecs depth hmac issuer s.reads (calls c')
      ((s.to c (.installed (.ok ()))).phase c')
    by_cases hc : c' = c
    · rw [hc, to_phase_self]
      trivial
    · rw [to_phase_of_ne hc]
      exact h.settled c'
  · rintro c' pair' ⟨result', hphase, hsuccess⟩
    change (s.to c (.installed (.ok ()))).phase c' = .read result' at hphase
    by_cases hc : c' = c
    · rw [hc, to_phase_self] at hphase
      cases hphase
    · rw [to_phase_of_ne hc] at hphase
      exact hc (pending_unique h ⟨result', hphase, hsuccess⟩ hpair)
  · show ∃ older, s.reads = pairOf q :: older
    obtain ⟨hnone, -⟩ | ⟨c', pair', older, hpair', hreads⟩ := h.reads
    · exact absurd hpair (hnone c pair)
    · have hc : c' = c := pending_unique h hpair' hpair
      obtain ⟨result, hphase, hsuccess⟩ := hpair
      obtain ⟨result', hphase', hsuccess'⟩ := hpair'
      rw [hc, hphase] at hphase'
      rw [← Phase.read.inj hphase', hsuccess] at hsuccess'
      refine ⟨s.lastRead :: older, ?_⟩
      rw [hreads, hq, Option.some.inj hsuccess']

end

/-! ### Steps and runs -/

omit [DecidableEq ρ] in
theorem not_pending (h : ∀ result, s.phase c ≠ .read result) (pair : KeyPair) :
    ¬s.Pending c pair := by
  rintro ⟨result, hphase, -⟩
  exact h result hphase

/-- Every step keeps what the provider owes. -/
theorem Sound.step (h : Sound codecs depth hmac calls issuer s) (m : Move ρ) :
    Sound codecs depth hmac calls issuer (s.step codecs depth hmac refreshS calls m) := by
  unfold Machine.step
  dsimp only
  by_cases hread : ∃ result, s.phase m.call = .read result
  · obtain ⟨result, hphase⟩ := hread
    rw [hphase]
    dsimp only
    obtain ⟨hnone, e, he⟩ | ⟨pair, q, -, hsuccess, hq, hpair, hissuer⟩ :=
      install_cases s.provider result
    · rw [he]
      refine h.stay ?_ (.installed (.error e)) (fun _ => by rw [hphase]; rfl) trivial
        (fun _ hread => (nomatch hread)) _ _
      rintro pair ⟨result', hphase', hsuccess⟩
      rw [hphase] at hphase'
      rw [← Phase.read.inj hphase', hnone] at hsuccess
      cases hsuccess
    · rw [hq]
      exact h.installs ⟨result, hphase, hsuccess⟩ hpair hissuer
  have hold := not_pending fun result hphase => hread ⟨result, hphase⟩
  cases hphase : s.phase m.call with
  | idle =>
    dsimp only
    split
    · split
      · exact h.stay hold .ready (fun hready => (nomatch hready)) trivial
          (fun _ hread => (nomatch hread)) _ _
      · exact h.stay hold .stale (fun hstale => (nomatch hstale)) trivial
          (fun _ hread => (nomatch hread)) _ _
    · cases hlock : s.lock with
      | none => exact h.acquire hold hlock
      | some c => exact h
  | stale =>
    dsimp only
    cases hlock : s.lock with
    | none => exact h.acquire hold hlock
    | some c =>
      exact h.stay hold .ready (fun hready => (nomatch hready)) trivial
        (fun _ hread => (nomatch hread)) _ _
  | holding =>
    have hheld : (s.phase m.call).refreshing = true := by rw [hphase]; rfl
    have hdue : Sound codecs depth hmac calls issuer (s.to m.call .due) :=
      h.stay hold .due (fun _ => hheld) trivial (fun _ hread => (nomatch hread)) _ _
    dsimp only
    cases calls m.call with
    | refreshForProbe floorS =>
      dsimp only
      split
      · exact hdue
      · exact h.stay hold (.recorded (.ok ())) (fun _ => hheld) trivial
          (fun _ hread => (nomatch hread)) _ _
    | verify _ _ | issue _ _ _ _ _ | refreshKeys => exact hdue
  | due =>
    exact h.stay hold .reading (fun _ => by rw [hphase]; rfl) trivial
      (fun _ hread => (nomatch hread)) _ _
  | reading =>
    have hheld : (s.phase m.call).refreshing = true := by rw [hphase]; rfl
    dsimp only
    cases m.get with
    | none =>
      exact h.stay hold (.read (.error .notReturned)) (fun _ => hheld) trivial
        (fun _ hread => by rw [← Phase.read.inj hread]; rfl) _ _
    | some current =>
      exact h.stay hold (.got current) (fun _ => hheld) trivial
        (fun _ hread => (nomatch hread)) _ _
  | got current => exact h.returns (by rw [hphase]; rfl) hold _
  | read result => exact absurd ⟨result, hphase⟩ hread
  | installed result =>
    exact h.stay hold (.recorded result) (fun _ => by rw [hphase]; rfl) trivial
      (fun _ hread => (nomatch hread)) _ _
  | recorded result =>
    have hheld : (s.phase m.call).refreshing = true := by rw [hphase]; rfl
    dsimp only
    cases hcall : calls m.call with
    | refreshKeys =>
      refine h.release hheld hold (.ended (.refreshed result) s.lastRead) rfl ?_
        (fun _ hread => (nomatch hread))
      intro hlazy
      rw [hcall] at hlazy
      cases hlazy
    | refreshForProbe floorS =>
      refine h.release hheld hold (.ended (.probed s.lastReadOk) s.lastRead) rfl ?_
        (fun _ hread => (nomatch hread))
      intro hlazy
      rw [hcall] at hlazy
      cases hlazy
    | verify _ _ | issue _ _ _ _ _ =>
      exact h.release hheld hold .ready rfl trivial (fun _ hread => (nomatch hread))
  | ready =>
    refine h.stay hold (.fetched s.provider s.lastRead) (fun hfetched => (nomatch hfetched)) ?_
      (fun _ hread => (nomatch hread)) _ _
    refine ⟨h.last, h.issuer, ?_⟩
    obtain ⟨-, older, hreads⟩ | ⟨c, pair, older, -, hreads⟩ := h.reads
    · rw [hreads]
      exact List.mem_cons_self
    · rw [hreads]
      exact List.mem_cons_of_mem pair List.mem_cons_self
  | fetched p last =>
    have hfetched := h.settled m.call
    rw [hphase] at hfetched
    obtain ⟨hpair, hissuer, hmem⟩ := hfetched
    refine h.stay hold (.ended (useKeys codecs depth hmac p m.wall (calls m.call)) last)
      (fun hended => (nomatch hended)) ?_ (fun _ hread => (nomatch hread)) _ _
    exact fun _ => ⟨hmem, p, m.wall, hpair, hissuer, rfl⟩
  | ended outcome last => exact h

/-- A failed refresh leaves the keys. -/
theorem keepsKeys (s : Machine ρ) (m : Move ρ) :
    KeepsKeys codecs depth hmac refreshS calls s m := by
  by_cases hread : ∃ result, s.phase m.call = .read result
  · obtain ⟨result, hphase⟩ := hread
    unfold KeepsKeys Machine.step
    dsimp only
    rw [hphase]
    dsimp only
    obtain ⟨-, e, he⟩ | ⟨pair, q, hresult, hsuccess, hq, hpair, -⟩ :=
      install_cases s.provider result
    · rw [he]
      exact .inl rfl
    · rw [hq]
      right
      refine ⟨pair, by rw [hresult], ?_, hpair⟩
      rw [← hresult]
      exact hsuccess
  · left
    unfold Machine.step
    dsimp only
    cases hphase : s.phase m.call with
    | idle =>
      dsimp only
      split
      · split <;> rfl
      · cases s.lock <;> rfl
    | stale => dsimp only; cases s.lock <;> rfl
    | holding =>
      dsimp only
      cases calls m.call with
      | refreshForProbe floorS => dsimp only; split <;> rfl
      | verify _ _ | issue _ _ _ _ _ | refreshKeys => rfl
    | reading => dsimp only; cases m.get <;> rfl
    | read result => exact absurd ⟨result, hphase⟩ hread
    | recorded result => dsimp only; cases calls m.call <;> rfl
    | due | got _ | installed _ | ready | fetched _ _ | ended _ _ => rfl

omit [DecidableEq ρ] in
theorem Sound.law (h : Sound codecs depth hmac calls issuer s) :
    Law codecs depth hmac calls issuer s := by
  have hends (c : ρ) : UsesOnePair codecs depth hmac calls issuer s c := by
    intro outcome last hphase hlazy
    have hsettled := h.settled c
    rw [hphase] at hsettled
    exact hsettled hlazy
  refine ⟨hends, ?_, ⟨h.last, ?_⟩, ?_⟩
  · intro c token audience outcome last hcall hphase
    obtain ⟨-, p, wall, hpair, hissuer, houtcome⟩ := hends c outcome last hphase (by rw [hcall]; rfl)
    refine ⟨wall, ?_⟩
    intro key claims hkey haccepted
    rw [houtcome, hcall]
    show Outcome.verified _ = _
    rw [← hpair] at hkey
    rw [haccepted.verify hkey hissuer]
  · obtain ⟨-, hreads⟩ | ⟨c, pair, older, ⟨result, hphase, hsuccess⟩, hreads⟩ := h.reads
    · exact .inl hreads
    · rw [(successful_eq_some hsuccess).1] at hphase
      exact .inr ⟨c, pair, older, hphase, hreads⟩
  · intro c c' hc hc'
    exact Option.some.inj ((h.lock c hc).symm.trans (h.lock c' hc'))

/-- **Key rotation.**  After every interleaving of the calls, with every answer of the secret
provider, each verification was made with one pair that a successful read returned and accepted what
is signed under a key of the pair read last, no two calls refresh, and no step changes the keys but
to a pair that was read. -/
theorem rotation_law (codecs : Codecs) (depth : Nat) (hmac : Hmac) (refreshS : Rat)
    (calls : ρ → Call) (p : HmacTokenProvider) (now : Rat) (moves : List (Move ρ)) :
    Law codecs depth hmac calls p.issuer
        (moves.foldl (Machine.step codecs depth hmac refreshS calls) (.start p now)) ∧
      ∀ m, KeepsKeys codecs depth hmac refreshS calls
        (moves.foldl (Machine.step codecs depth hmac refreshS calls) (.start p now)) m := by
  refine ⟨Sound.law ?_, keepsKeys _⟩
  have hrun (moves : List (Move ρ)) : ∀ s : Machine ρ, Sound codecs depth hmac calls p.issuer s →
      Sound codecs depth hmac calls p.issuer
        (moves.foldl (Machine.step codecs depth hmac refreshS calls) s) := by
    induction moves with
    | nil => exact fun s hs => hs
    | cons m moves ih => exact fun s hs => ih _ (hs.step m)
  exact hrun moves _ (sound_start p now)

end Lnpl.Drivers.Rotation
