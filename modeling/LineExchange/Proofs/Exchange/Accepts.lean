import LineExchange.Proofs.Parity.InStep
import LineExchange.Proofs.Region.Call

/-!
# LineExchange.Proofs.Exchange.Accepts

Which transmits are accepted on a core whose gate lets in. Three checks decide it: the one of the
settings, made once, `sendable` and `encode`. They agree, for every format that was checked:

* `Exchange.encodeStaged_decided`: a payload that fits the window is never too long for the header,
  so a transaction that may be sent (`Format.Sends`) has a control line, and any other has a
  reason not to be sent (`Format.Refuses`).
* `Exchange.answered_or_fault`: so it is on any memory, unless the memory itself faults.
* `Station.answered`: the memories of a station do not.
* `Format.sends_empty`: what a host lends out for a transaction of its own kinds may be sent.
-/

namespace LineExchange

namespace Format

variable {f : Format} {t : Transaction} {e : EncodeError}

/-- The transactions that a host sends: Ethernet and IP frames whose header has the size of its
kind, calls and replies whose words fit the header. -/
def Sends (f : Format) : Transaction → Prop
  | .bypass kind header => (kind = .ethernet ∨ kind = .ip) ∧ header.len = f.headerLen kind
  | .call r => r.words.len ≤ f.argsSize
  | .reply r => r.words.len ≤ f.argsSize
  | .error _ => False

/-- Why any other is not sent. -/
inductive Refuses (f : Format) : Transaction → EncodeError → Prop
  | kind (tag : UInt64) : Refuses f (.error tag) (.unsupportedKind .error)
  | udp (header : InlineBytes) : Refuses f (.bypass .udp header) (.unsupportedHeader .udp)
  | unknown (header : InlineBytes) : Refuses f (.bypass .error header) (.unsupportedHeader .error)
  | headerLength {kind : HeaderKind} {header : InlineBytes} : kind = .ethernet ∨ kind = .ip →
    header.len ≠ f.headerLen kind →
    Refuses f (.bypass kind header) (.headerLength kind header.len (f.headerLen kind))
  | call {r : Rpc} : f.argsSize < r.words.len →
    Refuses f (.call r) (.tooLarge "rpc inline words" r.words.len f.argsSize)
  | reply {r : Rpc} : f.argsSize < r.words.len →
    Refuses f (.reply r) (.tooLarge "rpc inline words" r.words.len f.argsSize)

theorem Refuses.unique {e' : EncodeError} (h : f.Refuses t e) (h' : f.Refuses t e') : e = e' := by
  cases h <;> cases h' <;> simp_all

/-- The payload is never the reason. -/
theorem Refuses.ne_length (h : f.Refuses t e) (n max : Nat) :
    e ≠ .lengthOverflow n max ∧ e ≠ .tooLarge "inline payload" n max := by
  cases h <;> simp

theorem Refuses.not_sends (h : f.Refuses t e) : ¬f.Sends t := by
  cases h with
  | kind | udp | unknown => simp [Sends]
  | headerLength _ hlen => exact fun hs => hlen hs.2
  | call hmore => exact Nat.not_le.2 hmore
  | reply hmore => exact Nat.not_le.2 hmore

/-- What a host lends out may be sent as it is, however small the windows of the format are. -/
theorem sends_empty (hf : f.Accepted) {kind : TransactionKind} (hkind : kind ≠ .error) :
    f.Sends (.empty f kind) := by
  cases kind with
  | bypass =>
    refine ⟨.inl rfl, Nat.min_eq_left ?_⟩
    exact Nat.le_trans (f.headerLen_le _) (Nat.le_trans (Nat.le_add_left ..) hf.bypass_le)
  | call => exact Nat.min_le_left ..
  | reply => exact Nat.min_le_left ..
  | error => exact absurd rfl hkind

/-! ## What is written of a transaction -/

theorem writeRpc_decided (tag : UInt64) (r : Rpc) :
    (r.words.len ≤ f.argsSize ∧ ∃ l, f.writeRpc tag r = .ok l) ∨ (f.argsSize < r.words.len ∧
      f.writeRpc tag r = .error (.tooLarge "rpc inline words" r.words.len f.argsSize)) := by
  unfold writeRpc
  rcases Nat.lt_or_ge f.argsSize r.words.len with hmore | hle
  · exact .inr ⟨hmore, if_pos hmore⟩
  · exact .inl ⟨hle, _, if_neg (Nat.not_lt.2 hle)⟩

theorem writeBypass_decided {kind : HeaderKind} {code : UInt64}
    (hcode : f.headerCode? kind = some code) (header : InlineBytes) :
    (header.len = f.headerLen kind ∧ ∃ l, f.writeBypass kind header = .ok l) ∨
      (header.len ≠ f.headerLen kind ∧ f.writeBypass kind header =
        .error (.headerLength kind header.len (f.headerLen kind))) := by
  unfold writeBypass
  rw [hcode]
  rcases Decidable.em (header.len = f.headerLen kind) with hlen | hlen
  · exact .inl ⟨hlen, _, if_pos hlen⟩
  · exact .inr ⟨hlen, if_neg hlen⟩

/-- A transaction that a host may send has the sizes the header asks for, or is refused for the
one it has not. -/
theorem writeTransaction_decided (hsend : Exchange.sendable t = .ok ()) :
    (f.Sends t ∧ ∃ l, f.writeTransaction t = .ok l) ∨
      ∃ e, f.Refuses t e ∧ f.writeTransaction t = .error e := by
  have frame {kind : HeaderKind} (hkind : kind = .ethernet ∨ kind = .ip) {code : UInt64}
      (hcode : f.headerCode? kind = some code) (header : InlineBytes) :
      (f.Sends (.bypass kind header) ∧ ∃ l, f.writeTransaction (.bypass kind header) = .ok l) ∨
        ∃ e, f.Refuses (.bypass kind header) e ∧
          f.writeTransaction (.bypass kind header) = .error e := by
    obtain ⟨hlen, hl⟩ | ⟨hlen, he⟩ := writeBypass_decided hcode header
    · exact .inl ⟨⟨hkind, hlen⟩, hl⟩
    · exact .inr ⟨_, .headerLength hkind hlen, he⟩
  cases t with
  | bypass kind header =>
    cases kind with
    | ethernet => exact frame (.inl rfl) rfl header
    | ip => exact frame (.inr rfl) rfl header
    | udp | error => cases hsend
  | call r =>
    obtain ⟨hle, hl⟩ | ⟨hmore, he⟩ := writeRpc_decided (f := f) f.tags.call r
    · exact .inl ⟨hle, hl⟩
    · exact .inr ⟨_, .call hmore, he⟩
  | reply r =>
    obtain ⟨hle, hl⟩ | ⟨hmore, he⟩ := writeRpc_decided (f := f) f.tags.reply r
    · exact .inl ⟨hle, hl⟩
    · exact .inr ⟨_, .reply hmore, he⟩
  | error tag => cases hsend

theorem sendable_decided (f : Format) (t : Transaction) :
    Exchange.sendable t = .ok () ∨ ∃ e, f.Refuses t e ∧ Exchange.sendable t = .error e := by
  cases t with
  | bypass kind header =>
    cases kind with
    | ethernet | ip => exact .inl rfl
    | udp => exact .inr ⟨_, .udp header, rfl⟩
    | error => exact .inr ⟨_, .unknown header, rfl⟩
  | call r | reply r => exact .inl rfl
  | error tag => exact .inr ⟨_, .kind tag, rfl⟩

theorem encode_of_le {length : Nat} {inline : Bytes} (hinline : inline.size ≤ inlineSize)
    (hlength : length ≤ f.maxLength) : f.encode t length inline =
      (f.writeTransaction t).map fun l => f.complete l length inline := by
  unfold encode
  rw [if_neg (Nat.not_lt.2 hinline), if_neg (Nat.not_lt.2 hlength)]
  cases f.writeTransaction t <;> rfl

end Format

namespace Exchange

open ControlByte (LetsIn)

variable {M σ : Type} [Memory M] {f : Format} {d : Descriptor}

/-- A transaction is sent, or there is a reason not to send it; its payload is none. -/
theorem encodeStaged_decided (hmax : d.payload.size ≤ f.maxLength) :
    (f.Sends d.transaction ∧ ∃ l, encodeStaged f d = .ok l) ∨
      ∃ e, f.Refuses d.transaction e ∧ encodeStaged f d = .error e := by
  have hinline : (d.payload.slice 0 inlineSize).size ≤ inlineSize := by
    rw [Bytes.size_slice]
    exact Nat.min_le_left ..
  unfold encodeStaged
  obtain hsend | ⟨e, hrefuses, he⟩ := f.sendable_decided d.transaction
  · rw [hsend]
    dsimp only
    rw [Format.encode_of_le hinline hmax]
    obtain ⟨hsends, l, hl⟩ | ⟨e, hrefuses, he⟩ := Format.writeTransaction_decided (f := f) hsend
    · exact .inl ⟨hsends, _, by rw [hl]; rfl⟩
    · exact .inr ⟨e, hrefuses, by rw [he]; rfl⟩
  · exact .inr ⟨e, hrefuses, by rw [he]⟩

/-! ## What a transmit comes to -/

/-- What a transmit of a descriptor comes to on a core whose gate lets in. -/
structure Answered (c : Config) (d : Descriptor) (r : Except Stop Unit) : Prop where
  tooLarge_iff : r = .error (.refused (.payloadTooLarge d.payload.size c.layout.payloadCapacity)) ↔
    c.layout.payloadCapacity < d.payload.size
  ok_iff : r = .ok () ↔
    d.payload.size ≤ c.layout.payloadCapacity ∧ c.format.Sends d.transaction
  refused_iff : ∀ e, r = .error (.refused (.unsupportedTransmit e)) ↔
    d.payload.size ≤ c.layout.payloadCapacity ∧ c.format.Refuses d.transaction e
  total : r = .error (.refused (.payloadTooLarge d.payload.size c.layout.payloadCapacity)) ∨
    r = .ok () ∨ ∃ e, r = .error (.refused (.unsupportedTransmit e))

theorem answered_tooLarge {c : Config} (hmore : c.layout.payloadCapacity < d.payload.size) :
    Answered c d
      (.error (.refused (.payloadTooLarge d.payload.size c.layout.payloadCapacity))) where
  tooLarge_iff := iff_of_true rfl hmore
  ok_iff := iff_of_false nofun fun h => Nat.not_lt.2 h.1 hmore
  refused_iff _ := iff_of_false nofun fun h => Nat.not_lt.2 h.1 hmore
  total := .inl rfl

theorem answered_encodeStaged {c : Config} (hc : c.check = .ok ())
    (hle : d.payload.size ≤ c.layout.payloadCapacity) : Answered c d
      (((encodeStaged c.format d).map fun _ => ()).mapError fun e =>
        .refused (.unsupportedTransmit e)) := by
  have hmax := Nat.le_trans hle (Config.payloadCapacity_le_of_check hc)
  obtain ⟨hsends, l, hl⟩ | ⟨e, hrefuses, he⟩ := encodeStaged_decided hmax
  · rw [hl]
    exact {
      tooLarge_iff := iff_of_false nofun (Nat.not_lt.2 hle)
      ok_iff := iff_of_true rfl ⟨hle, hsends⟩
      refused_iff := fun _ => iff_of_false nofun fun h => h.2.not_sends hsends
      total := .inr (.inl rfl) }
  · rw [he]
    exact {
      tooLarge_iff := iff_of_false nofun (Nat.not_lt.2 hle)
      ok_iff := iff_of_false nofun fun h => hrefuses.not_sends h.2
      refused_iff := fun e' => by
        constructor
        · rintro ⟨⟩
          exact ⟨hle, hrefuses⟩
        · rintro ⟨-, hrefuses'⟩
          rw [hrefuses.unique hrefuses']
          rfl
      total := .inr (.inr ⟨e, rfl⟩) }

/-- The memory faulted. -/
def Faulted (e : Stop) (_ : Exchange M) : Prop := ∃ fault, e = .fault fault

omit [Memory M] in
theorem meets_onMemory_any {α : Type} (a : Access M α) :
    Meets (fun _ : Exchange M => True) (onMemory a : Step M α) (fun _ _ => True)
      Faulted := by
  refine .of_ends fun x _ => ⟨_, _, ends_onMemory (.intro a x.host.memory), ?_⟩
  cases ((ExceptT.run a).run x.host.memory).1 with
  | ok v => trivial
  | error fault => exact ⟨fault, rfl⟩

theorem meets_ringDoorbell_any : Meets (fun _ : Exchange M => True) (ringDoorbell : Step M Unit)
    (fun _ _ => True) Faulted :=
  .bind (.modify fun _ _ => trivial) fun _ => .get_bind fun _ _ => meets_onMemory_any _

theorem meets_writeStaged_any (line : Line) :
    Meets (fun _ : Exchange M => True) (writeStaged d line : Step M Unit)
      (fun _ _ => True) Faulted := by
  refine .get_bind fun x _ => ?_
  dsimp only
  split
  · exact (meets_onMemory_any _).bind fun _ => meets_onMemory_any _
  · exact meets_onMemory_any _

/-- Inside the gate a transmit comes to what the encoder makes of the descriptor. -/
theorem meets_send_any (c : Config) :
    Meets (fun x : Exchange M => x.host.config = c) (send d : Step M (Except EncodeError Unit))
      (fun r _ => r = (encodeStaged c.format d).map fun _ => ())
      Faulted := by
  have ring {r r' : Except EncodeError Unit} (hr : r = r') : Meets (fun _ : Exchange M => True)
      (ringDoorbell >>= fun _ => pure r : Step M (Except EncodeError Unit))
      (fun v _ => v = r') Faulted :=
    meets_ringDoorbell_any.bind fun _ => .pure fun _ _ => hr
  refine .get_bind ?_
  rintro x rfl
  split
  · next line hline =>
    rw [hline]
    exact ((meets_writeStaged_any line).bind fun _ => ring rfl).conseq (fun _ _ => trivial)
      (fun _ _ h => h) fun _ _ h => h
  · next e he =>
    rw [he]
    exact (ring rfl).conseq (fun _ _ => trivial) (fun _ _ h => h) fun _ _ h => h

theorem fst_transmitWith (x : Exchange M) (p : SpinPolicy σ) (s : σ) (d : Descriptor) :
    (x.transmitWith p s d).1 = (x.transmitStaged p s d).1 := by
  unfold transmitWith
  generalize x.transmitStaged p s d = q
  obtain ⟨r, t, y⟩ := q
  rcases r with (_ | _ | _) | _ <;> rfl

theorem fst_transmitEntered (x : Exchange M) (d : Descriptor) :
    (Step.run (transmitEntered d) x).1 = match (Step.run (send d) x).1 with
      | .error e => .error e
      | .ok r => r.mapError fun e => .refused (.unsupportedTransmit e) := by
  have hguarded : (Step.run (guarded (send d)) x).1 = (Step.run (send d) x).1 := rfl
  cases hrun : Step.run (guarded (send d)) x with
  | mk r y =>
    rw [hrun] at hguarded
    rw [← hguarded]
    rcases r with e | e | _
    · exact congrArg Prod.fst (Ends.bind_error hrun)
    · have refused : Ends (transmitEntered d) x (.error (.refused (.unsupportedTransmit e))) _ :=
        Ends.bind hrun (.bind (.modify _ _) (.throw _ _))
      exact congrArg Prod.fst refused
    · have sent : Ends (transmitEntered d) x (.ok ()) _ := Ends.bind hrun (.modify _ _)
      exact congrArg Prod.fst sent

omit [Memory M] in
theorem transaction_of_prepare {x y : Exchange M} {kind : TransactionKind}
    (h : Ends (prepare kind) x (.ok d) y) :
    d.transaction = .empty x.host.config.format kind := by
  obtain ⟨heq, -⟩ := h.unique (ends_prepare x kind)
  split at heq <;> cases heq
  rfl

variable [LawfulMemory M] {x : Exchange M}

/-- On a core whose gate lets in, the checks decide what a transmit comes to, unless the memory
faults while the gate is held. -/
theorem answered_or_fault (hin : x.host.workerAt x.owner.core < Memory.size x.host.memory)
    (hcore : x.host.coreError? x.owner.core = none)
    (hidle : LetsIn (x.host.gateOf x.owner.core).byte) (p : SpinPolicy σ) (s : σ)
    (d : Descriptor) : Answered x.host.config d (x.transmitWith p s d).1 ∨
      ∃ fault, (x.transmitWith p s d).1 = .error (.fault fault) ∧
        d.payload.size ≤ x.host.config.layout.payloadCapacity ∧
        (Step.run (send d) x.admitted).1 = .error (.fault fault) := by
  rw [fst_transmitWith]
  unfold transmitStaged
  rw [hcore]
  dsimp only
  rcases Nat.lt_or_ge x.host.config.layout.payloadCapacity d.payload.size with hmore | hle
  · rw [if_pos hmore]
    exact .inl (answered_tooLarge hmore)
  have henter := enter_open (p := p) (s := s) hin (Gate.isOpen_iff.2 hidle)
  rw [if_neg (Nat.not_lt.2 hle),
    entering_eq henter (.intro (transmitEntered d) x.admitted)]
  have hrun : ((ExceptT.run (transmitEntered d)).run x.admitted).1 = _ :=
    fst_transmitEntered x.admitted d
  have hsend := (meets_send_any (d := d) x.host.config).out (.intro _ x.admitted) rfl
  dsimp only
  rw [hrun]
  change Post _ _ (Step.run (send d) x.admitted).1 _ at hsend
  cases hr : (Step.run (send d) x.admitted).1 with
  | ok r =>
    rw [hr] at hsend
    obtain rfl : r = _ := hsend
    exact .inl (answered_encodeStaged x.host.config_ok hle)
  | error e =>
    rw [hr] at hsend
    obtain ⟨fault, rfl⟩ : ∃ fault, e = .fault fault := hsend
    exact .inr ⟨fault, rfl, hle, rfl⟩

/-! ## On a plain region -/

/-- A transmit whose payload fits the window does not fault on a plain region. -/
theorem ends_send_plain {x : Exchange Backing} {r : Region} (hmem : x.host.memory = .plain r)
    (hparts : ∀ p : Part, x.host.config.layout.partAt x.owner.core p +
      p.len x.host.config.layout ≤ r.size)
    (hfits : d.payload.size ≤ x.host.config.layout.payloadCapacity) :
    ∃ v y, Ends (send d) x (.ok v) y := by
  let ofBytes (b : Bytes) : Backing := .plain ⟨b⟩
  have ring {y : Exchange Backing} {b : Bytes} (hy : y.host.memory = ofBytes b)
      (hin : y.host.config.layout.controlAt y.owner.core .tx (!y.owner.next.tx) < b.size) :
      ∃ z, Ends ringDoorbell y (.ok ()) z := by
    refine ⟨_, ends_ringDoorbell (m := ofBytes b) ?_⟩
    rw [hy]
    exact Backing.ends_access_plain (Region.ends_touch hin)
  have write (b : Bytes) (offset : Nat) (data : Bytes) (h : offset + data.size ≤ b.size) :
      Ends (Memory.write offset data) (ofBytes b) (.ok ()) (ofBytes (b.patch offset data)) :=
    Backing.ends_access_plain (Region.ends_write h)
  have hdoorbell := Layout.lt_of_line_le (hparts (.control .tx (!x.owner.next.tx)))
  cases henc : encodeStaged x.host.config.format d with
  | error e =>
    obtain ⟨z, hz⟩ := ring (b := r.bytes) hmem hdoorbell
    refine ⟨.error e, z, .bind (.get x) ?_⟩
    rw [henc]
    exact hz.bind (.pure _ z)
  | ok line =>
    have hwrite := ends_writeStaged ofBytes (b := r.bytes) hmem write hparts line hfits
    obtain ⟨z, hz⟩ := ring (y := ⟨{ x.host with memory := ofBytes _ }, x.owner⟩) rfl
      (Nat.lt_of_lt_of_eq hdoorbell ((Bytes.size_patch ..).trans (Bytes.size_patch ..)).symm)
    refine ⟨.ok (), z, .bind (.get x) ?_⟩
    rw [henc]
    exact hwrite.bind (hz.bind (.pure _ z))

theorem answered_plain {x : Exchange Backing} {r : Region} (hmem : x.host.memory = .plain r)
    (hcore : x.host.coreError? x.owner.core = none)
    (hparts : ∀ p : Part, x.host.config.layout.partAt x.owner.core p +
      p.len x.host.config.layout ≤ r.size)
    (hidle : LetsIn (x.host.gateOf x.owner.core).byte) (p : SpinPolicy σ) (s : σ) (d : Descriptor) :
    Answered x.host.config d (x.transmitWith p s d).1 := by
  have hin : x.host.workerAt x.owner.core < r.size := Layout.lt_of_line_le (hparts .worker)
  have hin' : x.host.workerAt x.owner.core < Memory.size x.host.memory := by
    rw [hmem]
    exact hin
  obtain h | ⟨fault, -, hfits, hfault⟩ := answered_or_fault hin' hcore hidle p s d
  · exact h
  -- entering stored a control byte, which is no more than that
  have hadmitted : x.admitted.host.memory = .plain ⟨r.bytes.put (x.host.workerAt x.owner.core)
      (x.host.gateOf x.owner.core).entered.byte⟩ := by
    have hstore : Ends (Memory.storeControl (x.host.workerAt x.owner.core)
        (x.host.gateOf x.owner.core).entered.byte) (Backing.plain r) (.ok ()) _ :=
      Backing.ends_access_plain (Region.ends_storeControl _ hin)
    rw [← hmem] at hstore
    exact congrArg Prod.snd hstore
  obtain ⟨v, y, hsend⟩ := ends_send_plain (x := x.admitted) hadmitted
    (fun q => (hparts q).trans_eq (Bytes.size_put ..).symm) hfits
  have hrun : (Step.run (send d) x.admitted).1 = .ok v := congrArg Prod.fst hsend
  rw [hrun] at hfault
  cases hfault

/-! ## On a device -/

theorem Paced.answered {c : Config} {core : Nat} {pace : Pace} {x : Exchange Backing}
    (hx : Paced c core pace x) (hidle : LetsIn (x.host.gateOf x.owner.core).byte)
    (p : SpinPolicy σ) (s : σ) (d : Descriptor) : Answered c d (x.transmitWith p s d).1 := by
  have hconfig := hx.host.config
  obtain h | ⟨fault, -, hfits, hfault⟩ := answered_or_fault hx.workerAt_lt hx.coreError? hidle p s d
  · exact hconfig ▸ h
  rw [hconfig] at hfits
  have hheld : Held c core pace x.admitted :=
    (hx.withGate (x.host.gateOf x.owner.core).entered).2 (ControlByte.isBusy_setBusy ..)
  have hl : c.layout.Ordered := hconfig ▸ x.host.ordered
  have hpost := (meets_send (E := Never) hl hfits).out (.intro (send d) x.admitted) hheld
  change Post _ _ (Step.run (send d) x.admitted).1 _ at hpost
  rw [hfault] at hpost
  exact hpost.elim

end Exchange

namespace Station

open ControlByte (LetsIn)
open Exchange (Answered)

variable {c : Config} {s : Station}

theorem plain_after (hl : c.layout.Ordered) (ops : List Op) {r : Region} (hs : s.Tidy c)
    (hmem : s.host.memory = .plain r) : (s.after ops).Tidy c ∧
      ∃ r', (s.after ops).host.memory = .plain r' ∧ r'.size = r.size := by
  induction ops generalizing s r with
  | nil => exact ⟨hs, r, hmem, rfl⟩
  | cons op ops ih =>
    have hstep := confined_step hl op
    -- any other core sees the same memory before and after
    have halike := (hstep.rest s hs (op.core + 1) (Nat.succ_ne_self _)).host.memory
    rw [hmem] at halike
    cases hmem' : (s.step op).2.host.memory with
    | device d =>
      rw [hmem'] at halike
      cases halike
    | plain r' =>
      rw [hmem'] at halike
      cases halike with
      | plain hr =>
        obtain ⟨htidy, r'', hmem'', hsize⟩ := ih (hstep.holds s hs) hmem'
        exact ⟨htidy, r'', hmem'', hsize.trans hr.size.symm⟩

/-- No memory of a station faults at a transmit, whatever was done before. -/
theorem answered (h : s.Opened c) (hword : Memory.size s.host.memory < wordMax) (ops : List Op)
    {o : Owner} (hcore : o.core < c.numCores)
    (hidle : LetsIn ((s.after ops).host.gateOf o.core).byte) {σ : Type}
    (p : SpinPolicy σ) (t : σ) (d : Descriptor) :
    Answered c d (Exchange.transmitWith p t d ⟨(s.after ops).host, o⟩).1 := by
  have htidy := h.tidy
  cases h with
  | @plain r host hopen =>
    obtain ⟨hmemory, hconfig, -, -, hsize⟩ := Host.of_open? hopen
    have hl : c.layout.Ordered := hconfig ▸ host.ordered
    obtain ⟨⟨⟨hconfig', -⟩, -⟩, r', hmem, hsize'⟩ := plain_after hl ops htidy hmemory
    have hword' : r.size < wordMax := by
      rw [hmemory] at hword
      exact hword
    have hparts := c.layout.fits_of_requiredSize hl hsize hword' o.core hcore
    have hmapped : (Station.after { host } ops).host.coreError? o.core = none := by
      rw [Host.coreError?, hconfig', if_pos hcore]
    have hanswered := Exchange.answered_plain (x := ⟨_, o⟩) hmem hmapped
      (fun q => by rw [hconfig', hsize']; exact hparts q) hidle p t d
    rw [hconfig'] at hanswered
    exact hanswered
  | @device r d' host hstart hopen =>
    obtain ⟨hl, hsound, -⟩ := sound_open hstart hopen
    obtain ⟨tally, hcounts⟩ := (hsound.after hl ops).counts hcore
    have hpaced : Exchange.Paced c o.core ⟨o.next, tally⟩ ⟨_, o⟩ := ⟨hcounts, rfl, rfl⟩
    exact hpaced.answered hidle p t d

/-- **Which transmits are accepted.** On a core whose gate lets in, over any memory that does not
fault: a payload is too large exactly if it exceeds the capacity of the window; a transaction with
any other payload is sent exactly if it is an Ethernet or IP frame with a header of its size or a
call or reply whose words fit the header, and is refused for its kind, its header or its words
otherwise (`Exchange.Answered`). The memories of a station do not fault, whatever was done before.
So the length field is never too short, and whatever was lent out is accepted with any payload that
fits, unless it was lent out for an error. -/
theorem accepts_exactly (c : Config) :
    (∀ {M : Type} [Memory M] [LawfulMemory M] {x : Exchange M}, x.host.config = c →
      c.regionSize ≤ Memory.size x.host.memory → Memory.size x.host.memory < wordMax →
      x.owner.core < c.numCores → LetsIn (x.host.gateOf x.owner.core).byte →
      ∀ {σ : Type} (p : SpinPolicy σ) (t : σ) (d : Descriptor),
        Answered c d (x.transmitWith p t d).1 ∨
          ∃ fault, (x.transmitWith p t d).1 = .error (.fault fault)) ∧
    ∀ {s : Station}, s.Opened c → Memory.size s.host.memory < wordMax →
      ∀ (ops : List Op) {o : Owner}, o.core < c.numCores →
      LetsIn ((s.after ops).host.gateOf o.core).byte → ∀ {σ : Type} (p : SpinPolicy σ) (t : σ),
        let transmit (d : Descriptor) := (Exchange.transmitWith p t d ⟨(s.after ops).host, o⟩).1
        (∀ d, Answered c d (transmit d)) ∧
        (∀ d e, transmit d = .error (.refused (.unsupportedTransmit e)) → ∀ n max,
          e ≠ .lengthOverflow n max ∧ e ≠ .tooLarge "inline payload" n max) ∧
        ∀ {x y : Exchange Backing} {kind : TransactionKind} {d : Descriptor}, x.host.config = c →
          Ends (Exchange.prepare kind) x (.ok d) y → kind ≠ .error → ∀ payload : Bytes,
            payload.size ≤ c.layout.payloadCapacity → transmit { d with payload } = .ok () := by
  constructor
  · intro M _ _ x hconfig hsize hword hcore hidle σ p t d
    subst hconfig
    have hl := x.host.ordered
    have hparts := x.host.config.layout.fits_of_requiredSize hl hsize hword x.owner.core hcore
    have hmapped : x.host.coreError? x.owner.core = none := if_pos hcore
    obtain h | ⟨fault, hfault, -⟩ := Exchange.answered_or_fault
      (Layout.lt_of_line_le (hparts .worker)) hmapped hidle p t d
    · exact .inl h
    · exact .inr ⟨fault, hfault⟩
  · intro s h hword ops o hcore hidle σ p t transmit
    have hanswered (d : Descriptor) : Answered c d (transmit d) :=
      answered h hword ops hcore hidle p t d
    refine ⟨hanswered, ?_, ?_⟩
    · intro d e he
      exact (((hanswered d).refused_iff e).1 he).2.ne_length
    · intro x y kind d hconfig hprepare hkind payload hfits
      have hd : d.transaction = .empty c.format kind :=
        hconfig ▸ Exchange.transaction_of_prepare hprepare
      have hcheck : c.check = .ok () := hconfig ▸ x.host.config_ok
      refine (hanswered _).ok_iff.2 ⟨hfits, ?_⟩
      exact hd ▸ Format.sends_empty (Config.accepted_of_check hcheck) hkind

/-- A frame is sent as it was lent out and one with a UDP header is not, over a region that holds
zeros but for a control byte. -/
theorem accepts_exactly_frame : ∃ (s : Station) (r : Host Region) (o : Owner) (lent : Descriptor),
    s.Opened {} ∧ r.config = {} ∧ o = .synced 0 {} {} ∧ lent.transaction = .empty {} .bypass ∧
      let p : SpinPolicy Unit := (SpinLimit.attempts 3).policy
      let udp : Descriptor := ⟨.bypass .udp (.zeroed 42), .replicate 100 0xcd⟩
      (Exchange.transmitWith p () { lent with payload := .replicate 100 0xcd } ⟨s.host, o⟩).1 =
        .ok () ∧
      (Exchange.transmitWith p () udp ⟨s.host, o⟩).1 =
        .error (.refused (.unsupportedTransmit (.unsupportedHeader .udp))) ∧
      (Answered {} udp (Exchange.transmitWith p () udp ⟨r, o⟩).1 ∨
        ∃ fault, (Exchange.transmitWith p () udp ⟨r, o⟩).1 = .error (.fault fault)) := by
  obtain ⟨b, hb⟩ : ∃ b, b = (Bytes.zeros 0x10000).put 0xff80 1 := ⟨_, rfl⟩
  obtain ⟨hsize, hword, hidle⟩ := Exchange.idle_default hb
  obtain ⟨host, hopen⟩ : ∃ host, Host.open? (Backing.plain ⟨b⟩) {} = .ok host :=
    Host.exists_open? rfl hsize
  obtain ⟨hmemory, hconfig, -⟩ := Host.of_open? hopen
  let r : Host Region := ⟨⟨b⟩, {}, rfl, #[{}], #[false]⟩
  let o : Owner := .synced 0 {} {}
  let udp : Descriptor := ⟨.bypass .udp (.zeroed 42), .replicate 100 0xcd⟩
  have hidleRegion : LetsIn (r.gateOf o.core).byte := by
    rw [Host.byte_gateOf]
    exact hidle
  have hidleHost : LetsIn (host.gateOf o.core).byte := by
    rw [Host.gateOf, Host.workerAt, hmemory, hconfig]
    exact hidleRegion
  have hwordHost : Memory.size host.memory < wordMax := hmemory ▸ hword
  obtain ⟨hany, hstation⟩ := accepts_exactly {}
  obtain ⟨hanswered, -, hlent⟩ := hstation (s := { host }) (.plain hopen) hwordHost [] (o := o)
    (by decide) hidleHost (SpinLimit.attempts 3).policy ()
  have hprepare := Exchange.ends_prepare (⟨host, o⟩ : Exchange Backing) .bypass
  dsimp only at hprepare
  rw [hconfig, if_pos (by decide)] at hprepare
  refine ⟨{ host }, r, o, { transaction := .empty {} .bypass }, .plain hopen, rfl, rfl, rfl,
    hlent hconfig hprepare (by decide) _ (by decide), ?_, ?_⟩
  · exact ((hanswered udp).refused_iff _).2 ⟨by decide, .udp _⟩
  · exact hany (x := ⟨r, o⟩) rfl hsize hword (show 0 < 1 by decide) hidleRegion _ () udp

end Station
end LineExchange
