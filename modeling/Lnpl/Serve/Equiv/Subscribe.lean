import Lnpl.Front.Equiv.Lexer
import Lnpl.Serve.Subscribe

/-!
# A resumed event stream loses and repeats nothing

Sequence numbers are given out under the write lock, so what a commit publishes lies above
everything that was visible before (`Inv.writing` with the order of the table), and a rolled back
number was never seen.  What a subscriber has not received is therefore always what lies above the
last id it received.
-/

namespace Lnpl.Serve.Subscribe

open Lnpl.Drivers.Emissions Lnpl.Front Lnpl.Lib

variable {ρ P : Type} {event : String}

/-! ### Frames -/

variable {O : Outbox ρ P} {f : Frame ρ P}

theorem frames_modify {f : Row ρ P → Row ρ P} {hf : ∀ row, (f row).seq = row.seq}
    (h : ∀ row, (f row).toFrame = row.toFrame) : (O.modify f hf).frames = O.frames := by
  unfold Outbox.frames Outbox.modify
  rw [List.map_map]
  exact List.map_congr_left fun row _ => h row

theorem frames_markDelivered (O : Outbox ρ P) (now : Int) (seq : Nat) :
    (markDelivered O now seq).frames = O.frames :=
  frames_modify fun row => row.toFrame_marked now seq

theorem frames_foldl_markDelivered (seqs : List Nat) (now : Int) (O : Outbox ρ P) :
    (seqs.foldl (fun O seq => markDelivered O now seq) O).frames = O.frames :=
  List.foldlRecOn (motive := (Outbox.frames · = O.frames)) seqs _ rfl fun O' h seq _ => by
    rw [frames_markDelivered, h]

variable {O' : Outbox ρ P} {now : Int}

theorem frames_ackOutbox {seqs : List Nat} (h : ackOutbox O seqs now = some O') :
    O'.frames = O.frames := by
  unfold ackOutbox at h
  split at h
  · obtain rfl := Option.some.inj h
    exact frames_foldl_markDelivered seqs now O
  · cases h

theorem frames_insertOutbox {c : ρ} {emission : Drivers.Emissions.Emission P}
    (h : insertOutbox O c emission now = some O') :
    O'.frames = O.frames ++ [⟨O.sequence + 1, emission, some c⟩] := by
  unfold insertOutbox at h
  split at h
  · obtain rfl := Option.some.inj h
    simp [Outbox.frames]
  · cases h

theorem frames_sorted (O : Outbox ρ P) : O.frames.Pairwise fun f g => f.seq < g.seq := by
  unfold Outbox.frames
  rw [List.pairwise_map]
  exact O.sorted

theorem seq_le_int64Max (h : f ∈ O.frames) : f.seq ≤ int64Max := by
  obtain ⟨row, hrow, rfl⟩ := List.mem_map.mp h
  exact Nat.le_trans (O.le_sequence row hrow) O.bounded

theorem author_anonymous (h : f ∈ O.anonymous.frames) : f.author = none := by
  obtain ⟨row, hrow, rfl⟩ := List.mem_map.mp h
  obtain ⟨row, -, rfl⟩ := List.mem_map.mp hrow
  rfl

theorem poll_eq_since (O : Outbox ρ P) (seq : Nat) :
    poll O event seq = since O.frames event seq := by
  unfold poll selectOutboxSince since Outbox.frames
  rw [List.filter_map]
  rfl

/-! ### What lies above a sequence number -/

variable {l new : List (Frame ρ P)} {a b : Nat}

theorem since_append : since (l ++ new) event a = since l event a ++ since new event a :=
  List.filter_append ..

theorem mem_since : f ∈ since l event a ↔ f ∈ l ∧ f.emission.event = event ∧ a < f.seq := by
  simp [since]

/-- Where all numbers lie above both, the two cursors see the same. -/
theorem since_congr (ha : ∀ f ∈ new, a < f.seq) (hb : ∀ f ∈ new, b < f.seq) :
    since new event a = since new event b := by
  apply List.filter_congr
  intro f hf
  simp [ha f hf, hb f hf]

theorem since_since (h : a ≤ b) : since (since l event a) event b = since l event b := by
  unfold since
  rw [List.filter_filter]
  apply List.filter_congr
  intro f _
  simp only [Bool.decide_and, ← Bool.and_assoc]
  have hlt : b < f.seq → a < f.seq := fun hb => Nat.lt_of_le_of_lt h hb
  by_cases hb : b < f.seq
  · simp [hb, hlt hb]
  · simp [hb]

/-- The cursor moves over the first frame. -/
theorem since_head {rest : List (Frame ρ P)} (hsorted : l.Pairwise fun f g => f.seq < g.seq)
    (h : since l event a = f :: rest) :
    since l event f.seq = rest := by
  have hf : f ∈ since l event a := by
    rw [h]
    exact List.mem_cons_self
  have hlt : a < f.seq := (mem_since.mp hf).2.2
  have hrest : (f :: rest).Pairwise fun f g => f.seq < g.seq := by
    rw [← h]
    exact hsorted.filter _
  have hevent : ∀ g ∈ rest, g.emission.event = event ∧ f.seq < g.seq := by
    intro g hg
    have hmem : g ∈ since l event a := by
      rw [h]
      exact List.mem_cons_of_mem f hg
    exact ⟨(mem_since.mp hmem).2.1, (List.pairwise_cons.mp hrest).1 g hg⟩
  rw [← since_since (Nat.le_of_lt hlt), h, since, List.filter_cons_of_neg (by simp),
    List.filter_eq_self]
  intro g hg
  simpa using hevent g hg

section

variable [DecidableEq ρ]

theorem recordedBy_append (c : ρ) :
    recordedBy (l ++ new) c = recordedBy l c ++ recordedBy new c := by
  simp [recordedBy]

theorem recordedBy_self {c : ρ} (h : ∀ f ∈ new, f.author = some c) :
    recordedBy new c = new.map Frame.emission := by
  unfold recordedBy
  rw [List.filter_eq_self.mpr]
  simpa using h

theorem recordedBy_other {c d : ρ} (h : ∀ f ∈ new, f.author = some c) (hd : d ≠ c) :
    recordedBy new d = [] := by
  unfold recordedBy
  rw [List.filter_eq_nil_iff.mpr, List.map_nil]
  intro f hf
  simpa [h f hf] using Ne.symm hd

theorem recordedBy_ne_nil {f : Frame ρ P} {c : ρ} (hf : f ∈ l) (h : f.author = some c) :
    recordedBy l c ≠ [] := by
  have hmem : f.emission ∈ recordedBy l c :=
    List.mem_map_of_mem (List.mem_filter.mpr ⟨hf, by simpa using h⟩)
  exact List.ne_nil_of_mem hmem

/-! ### The header -/

variable {n afterSeq : Nat} {py : Python} {store : Store ρ (Outbox ρ P)}

/-- A subscriber that comes back with the id of a frame is understood. -/
theorem lastEventId_toString (py : Python) (h : n ≤ int64Max) :
    lastEventId py (some (toString n)) = .ok n := by
  have hisdigit : py.isdigit (toString n) = true := py.isdigit_toDigits n
  have hint : py.int (toString n).toList = .ok n := by
    have hlist : (toString n).toList = Nat.toDigits 10 n := by
      show (String.ofList (Nat.toDigits 10 n)).toList = _
      rw [String.toList_ofList]
    rw [hlist]
    exact py.int_toDigits h
  unfold lastEventId
  simp only [hisdigit, Bool.not_true, Bool.false_eq_true, if_false, hint]

/-- A header that is a printed number is read as that number, or not at all. -/
theorem eq_of_lastEventId {m : Nat} (h : lastEventId py (some (toString n)) = .ok m) : m = n := by
  have hlist : (toString n).toList = Nat.toDigits 10 n := by
    show (String.ofList (Nat.toDigits 10 n)).toList = _
    rw [String.toList_ofList]
  have hdigits := py.decimals_ascii (fun _ => isDigit_of_mem_toDigits (n := n)) 0
  unfold lastEventId at h
  simp only [hlist] at h
  split at h
  · cases h
  · split at h
    · cases h
    · next seq hint =>
      obtain rfl := Except.ok.inj h
      unfold Python.int at hint
      split at hint
      · cases hint
      · rw [hdigits, Nat.ofDigitChars_ten_toDigits] at hint
        exact (Except.ok.inj hint).symm

/-! ### The invariant -/

/-- What holds in every state. -/
structure Inv (event : String) (start : Option Nat) (s : State ρ P) : Prop where
  serial : s.store.Serial
  authors : ∀ c, recordedBy s.store.committed.frames c =
    if (s.run c).phase = .committed then (s.run c).emitted else []
  /-- A writing run has added its own emissions to what is committed. -/
  writing : ∀ c view, s.store.txn c = .writing view → (s.run c).phase = .running ∧
    ∃ new, view.frames = s.store.committed.frames ++ new ∧ (∀ f ∈ new, f.author = some c) ∧
      new.map Frame.emission = (s.run c).emitted
  /-- A run that has not written has recorded nothing. -/
  quiet : ∀ c, (∀ view, s.store.txn c ≠ .writing view) →
    (s.run c).phase = .idle ∨ (s.run c).phase = .running → (s.run c).emitted = []
  lastId : s.lastId = start ∧ s.received = [] ∨
    ∃ f ∈ s.store.committed.frames, s.lastId = some f.seq ∧ start.getD 0 < f.seq
  session : ∀ x ∈ s.session, x.afterSeq = s.lastId.getD 0
  received : s.committedSince event (start.getD 0) =
    s.received ++ s.committedSince event (s.lastId.getD 0)
  pending : ∀ x ∈ s.session, x.pending <+: s.committedSince event (s.lastId.getD 0)

variable {start : Option Nat} {s t : State ρ P} {c : ρ} {O : Outbox ρ P}

/-- New rows lie above the cursor of the subscriber and above its start. -/
theorem Inv.above (h : Inv event start s) {view : Outbox ρ P} {new : List (Frame ρ P)}
    (hview : view.frames = s.store.committed.frames ++ new) :
    since new event (start.getD 0) = since new event (s.lastId.getD 0) := by
  obtain ⟨hstart, -⟩ | ⟨f, hf, hlast, hlt⟩ := h.lastId
  · rw [hstart]
  · have hsorted := frames_sorted view
    rw [hview, List.pairwise_append] at hsorted
    have habove : ∀ g ∈ new, f.seq < g.seq := fun g hg => hsorted.2.2 f hf g hg
    rw [hlast]
    exact since_congr (fun g hg => Nat.lt_trans hlt (habove g hg)) habove

/-! ### Runs -/

theorem inv_init (O : Outbox ρ P) : Inv event start (State.init O start) := by
  constructor
  case serial => exact Store.serial_init _
  case authors =>
    intro c
    have hnone : recordedBy O.anonymous.frames c = [] := by
      unfold recordedBy
      rw [List.filter_eq_nil_iff.mpr, List.map_nil]
      intro f hf
      simp [author_anonymous hf]
    exact hnone
  case writing => exact fun _ _ h => (nomatch h)
  case quiet => exact fun _ _ _ => rfl
  case lastId => exact .inl ⟨rfl, rfl⟩
  case session => exact fun _ h => (nomatch h)
  case received => exact (List.nil_append _).symm
  case pending => exact fun _ h => (nomatch h)

section

variable (h : Inv event start s)
include h

theorem Inv.begin (hphase : (s.run c).phase = .idle) :
    Inv event start (s.setRun c { s.run c with phase := .running }) := by
  exact { h with
    authors := by
      intro d
      show recordedBy s.store.committed.frames d = _
      rw [h.authors d]
      by_cases hd : d = c
      · subst hd
        simp [State.setRun, hphase]
      · simp [State.setRun, hd]
    writing := by
      intro d view hd
      have hwriting := h.writing d view hd
      have hdc : d ≠ c := by
        rintro rfl
        rw [hphase] at hwriting
        exact nomatch hwriting.1
      simpa [State.setRun, hdc] using hwriting
    quiet := by
      intro d hd hidle
      by_cases hdc : d = c
      · subst hdc
        simpa [State.setRun] using h.quiet d hd (.inl hphase)
      · simp only [State.setRun, Function.update_of_ne hdc] at hidle ⊢
        exact h.quiet d hd hidle }

/-- Another store in which as much is committed and the same transactions write. -/
theorem Inv.setStore (hserial : store.Serial)
    (hcommitted : store.committed.frames = s.store.committed.frames)
    (hwriting : ∀ d view, store.txn d = .writing view ↔ s.store.txn d = .writing view) :
    Inv event start { s with store := store } := by
  have hsince : ∀ seq, State.committedSince { s with store := store } event seq =
      s.committedSince event seq := fun seq => by
    unfold State.committedSince
    rw [hcommitted]
  constructor
  case serial => exact hserial
  case authors =>
    intro d
    show recordedBy store.committed.frames d = _
    rw [hcommitted]
    exact h.authors d
  case writing =>
    intro d view hd
    show _ ∧ ∃ new, view.frames = store.committed.frames ++ new ∧ _
    rw [hcommitted]
    exact h.writing d view ((hwriting d view).mp hd)
  case quiet =>
    intro d hd hphase
    exact h.quiet d (fun view hview => hd view ((hwriting d view).mpr hview)) hphase
  case lastId =>
    show _ ∨ ∃ f ∈ store.committed.frames, _
    rw [hcommitted]
    exact h.lastId
  case session => exact h.session
  case received =>
    rw [hsince, hsince]
    exact h.received
  case pending =>
    intro x hx
    rw [hsince]
    exact h.pending x hx

/-- What a write statement of a run works on: what is committed, and the run's own emissions. -/
theorem Inv.writable (hphase : (s.run c).phase = .running) (hO : s.store.writable c = some O) :
    ∃ new, O.frames = s.store.committed.frames ++ new ∧ (∀ f ∈ new, f.author = some c) ∧
      new.map Frame.emission = (s.run c).emitted := by
  obtain hwriting | ⟨hquiet, -, rfl⟩ := h.serial.writable hO
  · exact (h.writing c O hwriting).2
  · rw [h.quiet c hquiet (.inr hphase)]
    exact ⟨[], (List.append_nil _).symm, by simp, rfl⟩

/-- A write statement of a run that has added `more` and told the run of it. -/
theorem Inv.write (hphase : (s.run c).phase = .running) {O' : Outbox ρ P}
    (hO : s.store.writable c = some O) {more : List (Frame ρ P)}
    (hO' : O'.frames = O.frames ++ more) (hmore : ∀ f ∈ more, f.author = some c) :
    Inv event start { s.setRun c
        { s.run c with emitted := (s.run c).emitted ++ more.map Frame.emission } with
      store := s.store.write c O' } := by
  obtain ⟨new, hnew, hauthor, hemitted⟩ := h.writable hphase hO
  constructor
  case serial => exact h.serial.write hO
  case authors =>
    intro d
    show recordedBy s.store.committed.frames d = _
    rw [h.authors d]
    by_cases hd : d = c
    · subst hd
      simp [State.setRun, hphase]
    · simp [State.setRun, hd]
  case writing =>
    intro d view hd
    by_cases hdc : d = c
    · subst hdc
      obtain rfl : O' = view := by
        have htxn : (s.store.write d O').txn d = .writing view := hd
        rw [Store.txn_write_self] at htxn
        exact Txn.writing.inj htxn
      refine ⟨by simp [State.setRun, hphase], new ++ more, ?_, ?_, ?_⟩
      · rw [hO', hnew, List.append_assoc]
        rfl
      · intro f hf
        cases List.mem_append.mp hf with
        | inl hold => exact hauthor f hold
        | inr hmem => exact hmore f hmem
      · simp [State.setRun, hemitted]
    · have htxn : s.store.txn d = .writing view := by
        have hframe := @Store.txn_write_ne _ _ _ s.store c O' d hdc
        exact hframe.symm.trans hd
      simpa [State.setRun, hdc] using h.writing d view htxn
  case quiet =>
    intro d hd hidle
    by_cases hdc : d = c
    · subst hdc
      exact absurd Store.txn_write_self (hd O')
    · have hd' : ∀ view, s.store.txn d ≠ .writing view := by
        intro view hview
        apply hd view
        rw [← hview]
        exact Store.txn_write_ne hdc
      simp only [State.setRun, Function.update_of_ne hdc] at hidle ⊢
      exact h.quiet d hd' hidle
  case lastId => exact h.lastId
  case session => exact h.session
  case received => exact h.received
  case pending => exact h.pending

theorem Inv.refuse : Inv event start { s with store := s.store.refuse c } :=
  h.setStore h.serial.refuse (by rw [Store.committed_refuse]) fun _ _ =>
    Store.txn_refuse_eq_writing

/-- A write statement that is none of `record_emission`. -/
theorem Inv.write_other (hphase : (s.run c).phase = .running) (hO : s.store.writable c = some O) :
    Inv event start { s with store := s.store.write c O } := by
  have hnone : O.frames = O.frames ++ [] := (List.append_nil _).symm
  have hwrite := h.write hphase hO hnone nofun
  simpa [State.setRun] using hwrite

theorem Inv.emit (hphase : (s.run c).phase = .running) (emission : Drivers.Emissions.Emission P)
    (now : Int) :
    Inv event start (s.emit c emission now) := by
  unfold State.emit
  split
  · exact h.refuse
  · next O hO =>
    split
    · exact h.write_other hphase hO
    · next O' hO' =>
      exact h.write hphase hO (frames_insertOutbox hO') fun f hf => by
        rw [List.mem_singleton.mp hf]

/-- A run ends, and its transaction with it, with nothing committed. -/
theorem Inv.finish {phase : Phase} (hserial : store.Serial)
    (hcommitted : store.committed = s.store.committed) (hself : store.txn c = .autocommit)
    (hother : ∀ d, d ≠ c → store.txn d = s.store.txn d) (hphase : (s.run c).phase = .running)
    (hend : phase = .rolledBack ∨ phase = .committed ∧ (s.run c).emitted = []) :
    Inv event start { s.setRun c { s.run c with phase := phase } with store := store } := by
  have hsince : ∀ seq, since store.committed.frames event seq = s.committedSince event seq := by
    intro seq
    rw [hcommitted]
    rfl
  constructor
  case serial => exact hserial
  case authors =>
    intro d
    show recordedBy store.committed.frames d = _
    rw [hcommitted, h.authors d]
    by_cases hd : d = c
    · subst hd
      obtain rfl | ⟨rfl, hnil⟩ := hend
      · simp [State.setRun, hphase]
      · simp [State.setRun, hphase, hnil]
    · simp [State.setRun, hd]
  case writing =>
    intro d view hd
    have hdc : d ≠ c := by
      rintro rfl
      rw [show store.txn d = .autocommit from hself] at hd
      cases hd
    have hwriting := h.writing d view ((hother d hdc).symm.trans hd)
    show _ ∧ ∃ new, view.frames = store.committed.frames ++ new ∧ _
    rw [hcommitted]
    simpa [State.setRun, hdc] using hwriting
  case quiet =>
    intro d hd hidle
    by_cases hdc : d = c
    · subst hdc
      obtain rfl | ⟨rfl, -⟩ := hend
      · simp [State.setRun] at hidle
      · simp [State.setRun] at hidle
    · have hd' : ∀ view, s.store.txn d ≠ .writing view := fun view hview =>
        hd view ((hother d hdc).trans hview)
      simp only [State.setRun, Function.update_of_ne hdc] at hidle ⊢
      exact h.quiet d hd' hidle
  case lastId =>
    show _ ∨ ∃ f ∈ store.committed.frames, _
    rw [hcommitted]
    exact h.lastId
  case session => exact h.session
  case received =>
    show since store.committed.frames event _ = _ ++ since store.committed.frames event _
    rw [hsince, hsince]
    exact h.received
  case pending =>
    intro x hx
    show _ <+: since store.committed.frames event _
    rw [hsince]
    exact h.pending x hx

theorem Inv.rollback (hphase : (s.run c).phase = .running) :
    Inv event start { s.setRun c { s.run c with phase := .rolledBack } with
      store := s.store.rollback c } :=
  h.finish h.serial.rollback Store.committed_rollback Store.txn_rollback_self
    (fun _ hd => Store.txn_rollback_ne hd) hphase (.inl rfl)

/-- What a commit publishes lies above all that was committed. -/
theorem Inv.commit (hphase : (s.run c).phase = .running) :
    Inv event start { s.setRun c { s.run c with phase := .committed } with
      store := s.store.commit c } := by
  by_cases hwriting : ∃ view, s.store.txn c = .writing view
  case neg =>
    rw [not_exists] at hwriting
    apply h.finish h.serial.commit _ Store.txn_commit_self (fun _ hd => Store.txn_commit_ne hd)
      hphase (.inr ⟨rfl, h.quiet c hwriting (.inr hphase)⟩)
    rw [Store.commit_of_not_writing hwriting, Store.committed_setTxn]
  case pos =>
    obtain ⟨view, hc⟩ := hwriting
    obtain ⟨-, new, hview, hauthor, hemitted⟩ := h.writing c view hc
    have hcommitted : (s.store.commit c).committed = view := by
      rw [Store.commit_of_writing hc]
      rfl
    have hsince : ∀ seq, since (s.store.commit c).committed.frames event seq =
        s.committedSince event seq ++ since new event seq := by
      intro seq
      rw [hcommitted, hview, since_append]
      rfl
    have habove := h.above hview
    have hquiet : ∀ d view', d ≠ c → s.store.txn d ≠ .writing view' := by
      intro d view' hdc hd
      have hwriter := h.serial.writer d view' hd
      rw [h.serial.writer c view hc] at hwriter
      exact hdc (Option.some.inj hwriter).symm
    constructor
    case serial => exact h.serial.commit
    case authors =>
      intro d
      show recordedBy (s.store.commit c).committed.frames d = _
      rw [hcommitted, hview, recordedBy_append, h.authors d]
      by_cases hd : d = c
      · subst hd
        rw [recordedBy_self hauthor, hemitted]
        simp [State.setRun, hphase]
      · rw [recordedBy_other hauthor hd]
        simp [State.setRun, hd]
    case writing =>
      intro d view' hd
      by_cases hdc : d = c
      · subst hdc
        have htxn : (s.store.commit d).txn d = .writing view' := hd
        rw [Store.txn_commit_self] at htxn
        cases htxn
      · exact absurd ((Store.txn_commit_ne hdc).symm.trans hd) (hquiet d view' hdc)
    case quiet =>
      intro d hd hidle
      by_cases hdc : d = c
      · subst hdc
        simp [State.setRun] at hidle
      · simp only [State.setRun, Function.update_of_ne hdc] at hidle ⊢
        exact h.quiet d (fun view' => hquiet d view' hdc) hidle
    case lastId =>
      show _ ∨ ∃ f ∈ (s.store.commit c).committed.frames, _
      rw [hcommitted, hview]
      obtain hstart | ⟨f, hf, hlast⟩ := h.lastId
      · exact .inl hstart
      · exact .inr ⟨f, List.mem_append_left new hf, hlast⟩
    case session => exact h.session
    case received =>
      show since (s.store.commit c).committed.frames event (start.getD 0) =
        s.received ++ since (s.store.commit c).committed.frames event (s.lastId.getD 0)
      rw [hsince, hsince, ← List.append_assoc, ← h.received, habove]
    case pending =>
      intro x hx
      show _ <+: since (s.store.commit c).committed.frames event _
      rw [hsince]
      exact (h.pending x hx).trans (List.prefix_append _ _)

theorem Inv.ack (seqs : List Nat) (now : Int) : Inv event start (s.ack seqs now) := by
  unfold State.ack
  split
  · next hnone =>
    split
    · exact h
    · next O hO =>
      have hframes : O.frames = s.store.committed.frames := frames_ackOutbox hO
      exact h.setStore h.serial.publish hframes fun _ _ => Iff.rfl
  · exact h

/-! ### The subscriber -/

theorem Inv.connect {seq : Nat} (hseq : lastEventId py s.header = .ok seq) :
    Inv event start { s with session := some ⟨seq, []⟩ } := by
  have hcursor : seq = s.lastId.getD 0 := by
    unfold State.header at hseq
    cases hlast : s.lastId with
    | none =>
      rw [hlast] at hseq
      exact (Except.ok.inj hseq).symm
    | some n =>
      rw [hlast] at hseq
      exact eq_of_lastEventId hseq
  exact { h with
    session := by
      rintro x ⟨⟩
      exact hcursor
    pending := by
      rintro x ⟨⟩
      exact List.nil_prefix }

theorem Inv.poll (hsession : s.session = some ⟨afterSeq, []⟩) :
    Inv event start { s with
      session := some ⟨afterSeq, Subscribe.poll s.store.committed event afterSeq⟩ } := by
  have hcursor : afterSeq = s.lastId.getD 0 := h.session _ hsession
  exact { h with
    session := by
      rintro x ⟨⟩
      exact hcursor
    pending := by
      rintro x ⟨⟩
      show Subscribe.poll s.store.committed event afterSeq <+: _
      rw [poll_eq_since, hcursor]
      exact List.prefix_rfl }

/-- The next frame is the first one that is missing. -/
theorem Inv.receive {f : Frame ρ P} {pending : List (Frame ρ P)}
    (hsession : s.session = some ⟨afterSeq, f :: pending⟩) :
    Inv event start { s with
      lastId := some f.seq
      session := some ⟨f.seq, pending⟩
      received := s.received ++ [f] } := by
  obtain ⟨more, hmore⟩ := h.pending _ hsession
  have hmissing : s.committedSince event (s.lastId.getD 0) = f :: (pending ++ more) := hmore.symm
  have hnext : s.committedSince event f.seq = pending ++ more :=
    since_head (frames_sorted _) hmissing
  have hmem : f ∈ s.committedSince event (start.getD 0) := by
    rw [h.received, hmissing]
    simp
  exact { h with
    lastId := .inr ⟨f, (mem_since.mp hmem).1, rfl, (mem_since.mp hmem).2.2⟩
    session := by
      rintro x ⟨⟩
      rfl
    received := by
      show s.committedSince event (start.getD 0) =
        (s.received ++ [f]) ++ s.committedSince event f.seq
      rw [h.received, hmissing, hnext]
      simp
    pending := by
      rintro x ⟨⟩
      show pending <+: s.committedSince event f.seq
      rw [hnext]
      exact List.prefix_append _ _ }

end

theorem Inv.step (h : Inv event start s) {py : Python} {a : Action ρ P}
    (hstep : step py event s a = some t) : Inv event start t := by
  cases a with
  | begin c =>
    simp only [Subscribe.step] at hstep
    split at hstep
    · next hphase =>
      obtain rfl := Option.some.inj hstep
      exact h.begin hphase
    · cases hstep
  | read c =>
    simp only [Subscribe.step] at hstep
    split at hstep
    · obtain rfl := Option.some.inj hstep
      exact h.setStore h.serial.read (by rw [Store.committed_read]) fun _ _ =>
        Store.txn_read_eq_writing
    · cases hstep
  | write c =>
    simp only [Subscribe.step] at hstep
    split at hstep
    · obtain rfl := Option.some.inj hstep
      exact h.refuse
    · next O hphase hO =>
      obtain rfl := Option.some.inj hstep
      exact h.write_other hphase hO
    · cases hstep
  | emit c emission now =>
    simp only [Subscribe.step] at hstep
    split at hstep
    · next hphase =>
      obtain rfl := Option.some.inj hstep
      exact h.emit hphase emission now
    · cases hstep
  | commit c =>
    simp only [Subscribe.step] at hstep
    split at hstep
    · next hphase =>
      obtain rfl := Option.some.inj hstep
      exact h.commit hphase
    · cases hstep
  | rollback c =>
    simp only [Subscribe.step] at hstep
    split at hstep
    · next hphase =>
      obtain rfl := Option.some.inj hstep
      exact h.rollback hphase
    · cases hstep
  | ack seqs now =>
    obtain rfl := Option.some.inj hstep
    exact h.ack seqs now
  | connect =>
    simp only [Subscribe.step] at hstep
    split at hstep
    · next hseq =>
      obtain rfl := Option.some.inj hstep
      exact h.connect hseq
    · cases hstep
  | poll =>
    simp only [Subscribe.step] at hstep
    split at hstep
    · next hsession =>
      obtain rfl := Option.some.inj hstep
      exact h.poll hsession
    · cases hstep
  | receive =>
    simp only [Subscribe.step] at hstep
    split at hstep
    · next hsession =>
      obtain rfl := Option.some.inj hstep
      exact h.receive hsession
    · cases hstep
  | disconnect =>
    obtain rfl := Option.some.inj hstep
    exact { h with
      session := fun _ hx => (nomatch hx)
      pending := fun _ hx => (nomatch hx) }

/-! ### The law -/

theorem Inv.resumed (h : Inv event start s) : Resumed event (start.getD 0) s := by
  have hmem : ∀ f ∈ s.received, f ∈ s.committedSince event (start.getD 0) := by
    intro f hf
    rw [h.received]
    exact List.mem_append_left _ hf
  constructor
  case received => exact h.received
  case pending => exact h.pending
  case poll =>
    intro x hx
    rw [poll_eq_since, h.session x hx]
    rfl
  case resume =>
    intro hne py
    obtain ⟨-, hnil⟩ | ⟨f, hf, hlast, -⟩ := h.lastId
    · exact absurd hnil hne
    · unfold State.header
      rw [hlast]
      exact lastEventId_toString py (seq_le_int64Max hf)
  case increasing =>
    have hsorted : (s.committedSince event (start.getD 0)).Pairwise fun f g => f.seq < g.seq :=
      (frames_sorted _).filter _
    rw [h.received, List.pairwise_append] at hsorted
    exact hsorted.1
  case authors => exact h.authors
  case committedOnly =>
    intro f hf c hauthor
    have hcommitted := (mem_since.mp (hmem f hf)).1
    have hne := recordedBy_ne_nil hcommitted hauthor
    rw [h.authors c] at hne
    by_contra hphase
    rw [if_neg hphase] at hne
    exact hne rfl

/-- **Event stream resume.** A subscriber that reconnects with the last id it received, any number
of times, receives every committed emission of its event above its first cursor exactly once and in
order, and none of a run that was rolled back, whatever the runs, the relay and the connections do
in between. -/
theorem resumeLaw : ResumeLaw ρ P := by
  intro py O event start s hs
  have hinv : Inv event start s := hs.invariant (fun h _ hstep => h.step hstep) (inv_init O)
  exact hinv.resumed

end

end Lnpl.Serve.Subscribe
