import Mathlib.Algebra.Order.Ring.Nat
import Mathlib.Data.List.Basic
import Liaozhai.Library.Transducer

/-!
# A decoder driven read by read

A framed reader keeps a buffer. Each read appends bytes to it, and the decoder
is called until it asks for more; at the end of input the same is done with the
decoder's end-of-input call. The first error ends the run. A `Decoder` carries
the proof that every frame it returns shortens the buffer, so the inner loop
ends by itself and needs no fuel.
-/

namespace Liaozhai.Framed

set_option autoImplicit false

universe u v w x

/-- The answer of one call: a frame, a request for more, or an error; with the
state and the buffer it leaves. -/
structure Answer (State : Type u) (Byte : Type v) (Item : Type w) (Error : Type x) where
  result : Except Error (Option Item)
  state : State
  buf : List Byte

structure Decoder (State : Type u) (Byte : Type v) (Item : Type w) (Error : Type x) where
  decode : State → List Byte → Answer State Byte Item Error
  decodeEof : State → List Byte → Answer State Byte Item Error
  decode_consumes : ∀ s buf i, (decode s buf).result = .ok (some i) →
    (decode s buf).buf.length < buf.length
  decodeEof_consumes : ∀ s buf i, (decodeEof s buf).result = .ok (some i) →
    (decodeEof s buf).buf.length < buf.length

variable {State : Type u} {Byte : Type v} {Item : Type w} {Error : Type x}

/-- What a loop of calls leaves: the items in order, the error that ended it if
there was one, and the state and buffer for the next read. -/
@[ext] structure Drained (State : Type u) (Byte : Type v) (Item : Type w) (Error : Type x) where
  items : List Item
  error : Option Error
  state : State
  buf : List Byte

def Drained.cons (i : Item) (d : Drained State Byte Item Error) :
    Drained State Byte Item Error := { d with items := i :: d.items }

@[simp] theorem Drained.cons_items (i : Item) (d : Drained State Byte Item Error) :
    (d.cons i).items = i :: d.items := rfl

@[simp] theorem Drained.cons_error (i : Item) (d : Drained State Byte Item Error) :
    (d.cons i).error = d.error := rfl

@[simp] theorem Drained.cons_state (i : Item) (d : Drained State Byte Item Error) :
    (d.cons i).state = d.state := rfl

@[simp] theorem Drained.cons_buf (i : Item) (d : Drained State Byte Item Error) :
    (d.cons i).buf = d.buf := rfl

/-- Call until the decoder asks for more. -/
def drain (call : State → List Byte → Answer State Byte Item Error)
    (consumes : ∀ s buf i, (call s buf).result = .ok (some i) →
      (call s buf).buf.length < buf.length)
    (s : State) (buf : List Byte) : Drained State Byte Item Error :=
  match _h : (call s buf).result with
  | .ok (some i) => (drain call consumes (call s buf).state (call s buf).buf).cons i
  | .ok none => ⟨[], none, (call s buf).state, (call s buf).buf⟩
  | .error e => ⟨[], some e, (call s buf).state, (call s buf).buf⟩
termination_by buf.length
decreasing_by exact consumes s buf i _h

section Drain
variable {call : State → List Byte → Answer State Byte Item Error}
variable {consumes : ∀ s buf i, (call s buf).result = .ok (some i) →
  (call s buf).buf.length < buf.length}
variable {s s' : State} {buf buf' : List Byte}

theorem drain_some {i : Item} (h : call s buf = ⟨.ok (some i), s', buf'⟩) :
    drain call consumes s buf = (drain call consumes s' buf').cons i := by
  rw [drain]
  split <;> simp_all

theorem drain_none (h : call s buf = ⟨.ok none, s', buf'⟩) :
    drain call consumes s buf = ⟨[], none, s', buf'⟩ := by
  rw [drain]
  split <;> simp_all

theorem drain_error {e : Error} (h : call s buf = ⟨.error e, s', buf'⟩) :
    drain call consumes s buf = ⟨[], some e, s', buf'⟩ := by
  rw [drain]
  split <;> simp_all

/-- What holds of a loop that ends at its first call, and passes from the calls behind a
frame to the calls from that frame on, holds of every loop. -/
theorem drain_induct {P : State → List Byte → Drained State Byte Item Error → Prop}
    (error : ∀ s buf s' buf' e, call s buf = ⟨.error e, s', buf'⟩ →
      P s buf ⟨[], some e, s', buf'⟩)
    (more : ∀ s buf s' buf', call s buf = ⟨.ok none, s', buf'⟩ → P s buf ⟨[], none, s', buf'⟩)
    (frame : ∀ s buf s' buf' i, call s buf = ⟨.ok (some i), s', buf'⟩ →
      buf'.length < buf.length → P s' buf' (drain call consumes s' buf') →
      P s buf ((drain call consumes s' buf').cons i))
    (s : State) (buf : List Byte) : P s buf (drain call consumes s buf) := by
  induction hn : buf.length using Nat.strongRecOn generalizing s buf with
  | ind n ih =>
    cases hcall : call s buf with
    | mk result s' buf' =>
      cases result with
      | error e =>
        rw [drain_error hcall]
        exact error s buf s' buf' e hcall
      | ok o =>
        cases o with
        | none =>
          rw [drain_none hcall]
          exact more s buf s' buf' hcall
        | some i =>
          have hshort := consumes s buf i (by rw [hcall])
          rw [hcall] at hshort
          rw [drain_some hcall]
          exact frame s buf s' buf' i hcall hshort (ih _ (by rw [← hn]; exact hshort) s' buf' rfl)

/-- Two starting points whose first calls agree are drained alike. -/
theorem drain_congr (h : call s buf = call s' buf') :
    drain call consumes s buf = drain call consumes s' buf' := by
  cases hr : call s' buf' with
  | mk result t rest =>
    rw [hr] at h
    cases result with
    | error e => rw [drain_error h, drain_error hr]
    | ok o =>
      cases o with
      | none => rw [drain_none h, drain_none hr]
      | some i => rw [drain_some h, drain_some hr]

end Drain

/-- The items of a loop of calls, an error last. -/
def Drained.results (d : Drained State Byte Item Error) : List (Except Error Item) :=
  d.items.map .ok ++ (d.error.map .error).toList

namespace Decoder
variable (D : Decoder State Byte Item Error)

/-- The calls after one read. -/
def afterRead (s : State) (buf : List Byte) : Drained State Byte Item Error :=
  drain D.decode D.decode_consumes s buf

/-- The calls at the end of input. -/
def afterEof (s : State) (buf : List Byte) : Drained State Byte Item Error :=
  drain D.decodeEof D.decodeEof_consumes s buf

/-- All the reads in order; an error ends the run. -/
def afterReads : State → List Byte → List (List Byte) → Drained State Byte Item Error
  | s, buf, [] => ⟨[], none, s, buf⟩
  | s, buf, r :: rs =>
    let d := D.afterRead s (buf ++ r)
    if d.error.isSome then d
    else
      let later := afterReads d.state d.buf rs
      { later with items := d.items ++ later.items }

/-- Everything the reader delivers from here to the end of input. -/
def deliverFrom (s : State) (buf : List Byte) (reads : List (List Byte)) :
    List (Except Error Item) :=
  let d := D.afterReads s buf reads
  if d.error.isSome then d.results
  else d.results ++ (D.afterEof d.state d.buf).results

def deliver (s : State) (reads : List (List Byte)) : List (Except Error Item) :=
  D.deliverFrom s [] reads

@[simp] theorem afterReads_nil (s : State) (buf : List Byte) :
    D.afterReads s buf [] = ⟨[], none, s, buf⟩ := rfl

theorem afterReads_cons {s : State} {buf r : List Byte} {rs : List (List Byte)}
    (h : (D.afterRead s (buf ++ r)).error = none) :
    D.afterReads s buf (r :: rs) =
      { D.afterReads (D.afterRead s (buf ++ r)).state (D.afterRead s (buf ++ r)).buf rs with
        items := (D.afterRead s (buf ++ r)).items ++
          (D.afterReads (D.afterRead s (buf ++ r)).state (D.afterRead s (buf ++ r)).buf rs).items } := by
  simp [afterReads, h]

theorem deliverFrom_of_error_eq_none {s : State} {buf : List Byte} {reads : List (List Byte)}
    (h : (D.afterReads s buf reads).error = none) :
    D.deliverFrom s buf reads = (D.afterReads s buf reads).items.map .ok ++
      (D.afterEof (D.afterReads s buf reads).state (D.afterReads s buf reads).buf).results := by
  simp [deliverFrom, h, Drained.results]

theorem deliverFrom_nil (s : State) (buf : List Byte) :
    D.deliverFrom s buf [] = (D.afterEof s buf).results := rfl

theorem deliverFrom_cons {s : State} {buf r : List Byte} {rs : List (List Byte)}
    (h : (D.afterRead s (buf ++ r)).error = none) :
    D.deliverFrom s buf (r :: rs) =
      (D.afterRead s (buf ++ r)).items.map .ok ++
        D.deliverFrom (D.afterRead s (buf ++ r)).state (D.afterRead s (buf ++ r)).buf rs := by
  simp only [deliverFrom, D.afterReads_cons h, Drained.results]
  split
  · simp
  · simp

theorem deliverFrom_cons_error {s : State} {buf r : List Byte} {rs : List (List Byte)} {e : Error}
    (h : (D.afterRead s (buf ++ r)).error = some e) :
    D.deliverFrom s buf (r :: rs) = (D.afterRead s (buf ++ r)).results := by
  simp [deliverFrom, afterReads, h]

/-- Reads that are drained alike are followed by the same run. -/
theorem deliverFrom_cons_of_afterRead_eq {s s' : State} {buf buf' r r' : List Byte}
    {rs : List (List Byte)} (h : D.afterRead s (buf ++ r) = D.afterRead s' (buf' ++ r')) :
    D.deliverFrom s buf (r :: rs) = D.deliverFrom s' buf' (r' :: rs) := by
  simp only [deliverFrom, afterReads, h]

theorem deliverFrom_cons_congr {s s' : State} {buf buf' r r' : List Byte} {rs : List (List Byte)}
    (h : D.decode s (buf ++ r) = D.decode s' (buf' ++ r')) :
    D.deliverFrom s buf (r :: rs) = D.deliverFrom s' buf' (r' :: rs) :=
  D.deliverFrom_cons_of_afterRead_eq (drain_congr h)

/-- A call that asks for more ends a read. -/
theorem deliverFrom_cons_none {s s' : State} {buf buf' r : List Byte} {rs : List (List Byte)}
    (h : D.decode s (buf ++ r) = ⟨.ok none, s', buf'⟩) :
    D.deliverFrom s buf (r :: rs) = D.deliverFrom s' buf' rs := by
  have hread : D.afterRead s (buf ++ r) = ⟨[], none, s', buf'⟩ := drain_none h
  rw [D.deliverFrom_cons (by rw [hread]), hread]
  rfl

/-- A call that returns a frame leaves the rest of the read in the buffer. -/
theorem deliverFrom_cons_some {s s' : State} {buf buf' r : List Byte} {rs : List (List Byte)}
    {i : Item} (h : D.decode s (buf ++ r) = ⟨.ok (some i), s', buf'⟩) :
    D.deliverFrom s buf (r :: rs) = .ok i :: D.deliverFrom s' buf' ([] :: rs) := by
  have hread : D.afterRead s (buf ++ r) = (D.afterRead s' (buf' ++ [])).cons i := by
    rw [List.append_nil]
    exact drain_some h
  cases herr : (D.afterRead s' (buf' ++ [])).error with
  | none =>
    rw [D.deliverFrom_cons herr, D.deliverFrom_cons (by rw [hread]; exact herr), hread]
    rfl
  | some e =>
    rw [D.deliverFrom_cons_error herr, D.deliverFrom_cons_error (by rw [hread]; exact herr), hread]
    rfl

theorem afterEof_none {s s' : State} {buf buf' : List Byte}
    (h : D.decodeEof s buf = ⟨.ok none, s', buf'⟩) : D.afterEof s buf = ⟨[], none, s', buf'⟩ :=
  drain_none h

theorem afterEof_some {s s' : State} {buf buf' : List Byte} {i : Item}
    (h : D.decodeEof s buf = ⟨.ok (some i), s', buf'⟩) :
    D.afterEof s buf = (D.afterEof s' buf').cons i :=
  drain_some h

/-- Simulation by a machine that takes a whole read at a time. If from related
configurations a read gives the items of the machine's step and related
configurations again, then a run of reads gives the items of the machine's run. -/
theorem afterReads_simulation {Abs Out : Type*} (step : Abs → List Byte → Abs × List Out)
    (item : Out → Item) (Safe : Abs → List Byte → Prop) (Rel : Abs → State → List Byte → Prop)
    (hstep : ∀ a s buf r, Rel a s buf → Safe a r →
      (D.afterRead s (buf ++ r)).error = none ∧
      (D.afterRead s (buf ++ r)).items = (step a r).2.map item ∧
      Rel (step a r).1 (D.afterRead s (buf ++ r)).state (D.afterRead s (buf ++ r)).buf)
    {a : Abs} {s : State} {buf : List Byte} {reads : List (List Byte)}
    (hrel : Rel a s buf) (hsafe : Transducer.Along step Safe a reads) :
    (D.afterReads s buf reads).error = none ∧
    (D.afterReads s buf reads).items = (Transducer.run step a reads).2.map item ∧
    Rel (Transducer.run step a reads).1
      (D.afterReads s buf reads).state (D.afterReads s buf reads).buf := by
  induction reads generalizing a s buf with
  | nil => exact ⟨rfl, rfl, hrel⟩
  | cons r rs ih =>
    obtain ⟨herr, hitems, hrel'⟩ := hstep a s buf r hrel hsafe.1
    obtain ⟨herrs, hlater, hend⟩ := ih hrel' hsafe.2
    rw [D.afterReads_cons herr, Transducer.run_cons]
    exact ⟨herrs, by simp only [hitems, hlater, List.map_append], hend⟩

end Decoder

/-! ### The buffer after each read -/

section EachRead
variable (D : Decoder State Byte Item Error) (P : List Byte → Prop)

/-- `P` holds of the buffer whenever a read has been added to it. -/
def Decoder.EachRead : State → List Byte → List (List Byte) → Prop
  | _, _, [] => True
  | s, buf, r :: rs =>
    P (buf ++ r) ∧
      Decoder.EachRead (D.afterRead s (buf ++ r)).state (D.afterRead s (buf ++ r)).buf rs

instance Decoder.decidableEachRead [∀ buf, Decidable (P buf)] :
    ∀ s buf reads, Decidable (D.EachRead P s buf reads)
  | _, _, [] => isTrue trivial
  | s, buf, r :: rs =>
    have := Decoder.decidableEachRead (D.afterRead s (buf ++ r)).state
      (D.afterRead s (buf ++ r)).buf rs
    inferInstanceAs (Decidable (_ ∧ _))

end EachRead

/-! ### Where a run ends

If a call fails exactly on a buffer that is too long, and no call lengthens the buffer,
then a run can only fail at the first call after a read. What a call leaves when it asks
for more is what the run retains between two reads. -/

section Ends
variable {call : State → List Byte → Answer State Byte Item Error}
variable {consumes : ∀ s buf i, (call s buf).result = .ok (some i) →
  (call s buf).buf.length < buf.length}
variable {limit : State → Nat} {Kept : State → List Byte → Prop}
variable {s : State} {buf : List Byte} {e : Error}

/-- A call fails if and only if the buffer is over the limit, and leaves the limit alone. -/
structure Limits (limit : State → Nat) (call : State → List Byte → Answer State Byte Item Error) :
    Prop where
  fails_iff : ∀ s buf, (∃ e, (call s buf).result = .error e) ↔ limit s < buf.length
  same : ∀ s buf, limit (call s buf).state = limit s

theorem drain_error_first (h : Limits limit call)
    (herr : (drain call consumes s buf).error = some e) : (call s buf).result = .error e := by
  revert herr
  refine @drain_induct _ _ _ _ call consumes
    (fun s buf d => d.error = some e → (call s buf).result = .error e) ?error ?more ?frame s buf
  case error =>
    intro s buf s' buf' e' hcall herr
    rw [hcall]
    exact congrArg Except.error (Option.some.inj herr)
  case more =>
    intro s buf s' buf' _ herr
    cases herr
  case frame =>
    -- a later call cannot fail: its buffer is shorter than one that was accepted
    intro s buf s' buf' i hcall hshort ih herr
    have hsame := h.same s buf
    rw [hcall] at hsame
    have hlong := (h.fails_iff s' buf').mp ⟨e, ih herr⟩
    have hover : limit s < buf.length := by
      rw [← hsame]
      exact Nat.lt_trans hlong hshort
    obtain ⟨e', he'⟩ := (h.fails_iff s buf).mpr hover
    rw [hcall] at he'
    cases he'

/-- A property of the state that no call breaks. -/
theorem drain_keeps {Inv : State → Prop} (h : ∀ s buf, Inv s → Inv (call s buf).state)
    (hs : Inv s) : Inv (drain call consumes s buf).state := by
  revert hs
  refine @drain_induct _ _ _ _ call consumes (fun s _ d => Inv s → Inv d.state)
    ?error ?more ?frame s buf
  case error =>
    intro s buf s' buf' e hcall hs
    have hstate := h s buf hs
    rw [hcall] at hstate
    exact hstate
  case more =>
    intro s buf s' buf' hcall hs
    have hstate := h s buf hs
    rw [hcall] at hstate
    exact hstate
  case frame =>
    intro s buf s' buf' i hcall _ ih hs
    have hstate := h s buf hs
    rw [hcall] at hstate
    exact ih hstate

/-- A loop that ends without an error ends with a call that asks for more. -/
theorem drain_retains
    (h : ∀ s buf, (call s buf).result = .ok none → Kept (call s buf).state (call s buf).buf)
    (herr : (drain call consumes s buf).error = none) :
    Kept (drain call consumes s buf).state (drain call consumes s buf).buf := by
  revert herr
  refine @drain_induct _ _ _ _ call consumes (fun _ _ d => d.error = none → Kept d.state d.buf)
    ?error ?more ?frame s buf
  case error =>
    intro s buf s' buf' e _ herr
    cases herr
  case more =>
    intro s buf s' buf' hcall _
    have hlast := h s buf (by rw [hcall])
    rw [hcall] at hlast
    exact hlast
  case frame =>
    intro s buf s' buf' i _ _ ih herr
    exact ih herr

namespace Decoder
variable (D : Decoder State Byte Item Error) {reads : List (List Byte)}

theorem afterReads_keeps {Inv : State → Prop} (h : ∀ s buf, Inv s → Inv (D.decode s buf).state)
    (hs : Inv s) : Inv (D.afterReads s buf reads).state := by
  induction reads generalizing s buf with
  | nil => exact hs
  | cons r rs ih =>
    have hread : Inv (D.afterRead s (buf ++ r)).state := drain_keeps h hs
    rw [afterReads]
    dsimp only
    split
    · exact hread
    · exact ih hread

theorem afterReads_retains
    (h : ∀ s buf, (D.decode s buf).result = .ok none → Kept (D.decode s buf).state (D.decode s buf).buf)
    (hstart : Kept s buf) (herr : (D.afterReads s buf reads).error = none) :
    Kept (D.afterReads s buf reads).state (D.afterReads s buf reads).buf := by
  induction reads generalizing s buf with
  | nil => exact hstart
  | cons r rs ih =>
    cases hread : (D.afterRead s (buf ++ r)).error with
    | some e =>
      rw [afterReads] at herr
      simp [hread] at herr
    | none =>
      have hkept : Kept (D.afterRead s (buf ++ r)).state (D.afterRead s (buf ++ r)).buf :=
        drain_retains h hread
      rw [D.afterReads_cons hread] at herr ⊢
      exact ih hkept herr

/-- An error ends the run at one of the reads. -/
theorem afterReads_error (herr : (D.afterReads s buf reads).error = some e) :
    ∃ pre r post, reads = pre ++ r :: post ∧ (D.afterReads s buf pre).error = none ∧
      (D.afterRead (D.afterReads s buf pre).state ((D.afterReads s buf pre).buf ++ r)).error =
        some e := by
  induction reads generalizing s buf with
  | nil => cases herr
  | cons r rs ih =>
    cases hread : (D.afterRead s (buf ++ r)).error with
    | some e' =>
      rw [afterReads] at herr
      simp only [hread, Option.isSome_some, if_true] at herr
      exact ⟨[], r, rs, rfl, rfl, hread.trans herr⟩
    | none =>
      rw [D.afterReads_cons hread] at herr
      obtain ⟨pre, r', post, hsplit, hbefore, hat⟩ := ih herr
      refine ⟨r :: pre, r', post, ?_, ?_, ?_⟩
      · rw [hsplit, List.cons_append]
      · rw [D.afterReads_cons hread]
        exact hbefore
      · rw [D.afterReads_cons hread]
        exact hat

/-- An error comes from the first call after a read that is over the limit with what
was retained. -/
theorem afterReads_overflow (h : Limits limit D.decode)
    (herr : (D.afterReads s buf reads).error = some e) :
    ∃ pre r post, reads = pre ++ r :: post ∧ (D.afterReads s buf pre).error = none ∧
      (D.decode (D.afterReads s buf pre).state ((D.afterReads s buf pre).buf ++ r)).result =
        .error e ∧
      limit s < (D.afterReads s buf pre).buf.length + r.length := by
  obtain ⟨pre, r, post, hsplit, hbefore, hread⟩ := D.afterReads_error herr
  have hfirst := drain_error_first h hread
  have hlong := (h.fails_iff _ _).mp ⟨e, hfirst⟩
  have hkeeps : ∀ s' buf', limit s' = limit s → limit (D.decode s' buf').state = limit s :=
    fun s' buf' hs' => (h.same s' buf').trans hs'
  have hsame := @afterReads_keeps _ _ _ _ s buf D pre _ hkeeps rfl
  rw [hsame, List.length_append] at hlong
  exact ⟨pre, r, post, hsplit, hbefore, hfirst, hlong⟩

end Decoder

end Ends

/-! ### Items under a map -/

section Map
variable {Item' : Type*} (g : Item → Item')

def Answer.mapItem (a : Answer State Byte Item Error) : Answer State Byte Item' Error :=
  ⟨a.result.map (Option.map g), a.state, a.buf⟩

def Drained.mapItem (d : Drained State Byte Item Error) : Drained State Byte Item' Error :=
  ⟨d.items.map g, d.error, d.state, d.buf⟩

theorem Drained.results_mapItem (d : Drained State Byte Item Error) :
    (d.mapItem g).results = d.results.map (Except.map g) := by
  cases h : d.error with
  | none => simp [Drained.results, Drained.mapItem, h, Except.map]
  | some e => simp [Drained.results, Drained.mapItem, h, Except.map]

theorem drain_mapItem {call : State → List Byte → Answer State Byte Item Error}
    {call' : State → List Byte → Answer State Byte Item' Error}
    (consumes : ∀ s buf i, (call s buf).result = .ok (some i) →
      (call s buf).buf.length < buf.length)
    (consumes' : ∀ s buf i, (call' s buf).result = .ok (some i) →
      (call' s buf).buf.length < buf.length)
    (h : ∀ s buf, call' s buf = (call s buf).mapItem g) (s : State) (buf : List Byte) :
    drain call' consumes' s buf = (drain call consumes s buf).mapItem g := by
  refine @drain_induct _ _ _ _ call consumes
    (fun s buf d => drain call' consumes' s buf = d.mapItem g) ?error ?more ?frame s buf
  case error =>
    intro s buf s' buf' e hcall
    exact drain_error (by rw [h, hcall]; rfl)
  case more =>
    intro s buf s' buf' hcall
    exact drain_none (by rw [h, hcall]; rfl)
  case frame =>
    intro s buf s' buf' i hcall _ ih
    have hcall' : call' s buf = ⟨.ok (some (g i)), s', buf'⟩ := by
      rw [h, hcall]
      rfl
    rw [drain_some hcall', ih]
    rfl

/-- A decoder with other items delivers the images of the items. -/
theorem Decoder.deliverFrom_map (D : Decoder State Byte Item Error)
    (D' : Decoder State Byte Item' Error)
    (hdecode : ∀ s buf, D'.decode s buf = (D.decode s buf).mapItem g)
    (heof : ∀ s buf, D'.decodeEof s buf = (D.decodeEof s buf).mapItem g)
    (s : State) (buf : List Byte) (reads : List (List Byte)) :
    D'.deliverFrom s buf reads = (D.deliverFrom s buf reads).map (Except.map g) := by
  induction reads generalizing s buf with
  | nil =>
    have heof' : D'.afterEof s buf = (D.afterEof s buf).mapItem g :=
      drain_mapItem g D.decodeEof_consumes D'.decodeEof_consumes heof s buf
    rw [deliverFrom_nil, deliverFrom_nil, heof', Drained.results_mapItem]
  | cons r rs ih =>
    have hread : D'.afterRead s (buf ++ r) = (D.afterRead s (buf ++ r)).mapItem g :=
      drain_mapItem g D.decode_consumes D'.decode_consumes hdecode s (buf ++ r)
    cases herr : (D.afterRead s (buf ++ r)).error with
    | some e =>
      rw [D.deliverFrom_cons_error herr,
        D'.deliverFrom_cons_error (by rw [hread]; exact herr), hread, Drained.results_mapItem]
    | none =>
      rw [D.deliverFrom_cons herr, D'.deliverFrom_cons (by rw [hread]; exact herr), hread]
      simp only [Drained.mapItem, ih, List.map_append, List.map_map]
      rfl

end Map

/-! ### Conservation

Let every item and every buffer have a weight. If no call delivers more weight
than it takes out of the buffer, no run delivers more weight than it reads. -/

section Weight

def Answer.delivered (worth : Item → Nat) (a : Answer State Byte Item Error) : Nat :=
  match a.result with
  | .ok (some i) => worth i
  | _ => 0

def resultWorth (worth : Item → Nat) : Except Error Item → Nat
  | .ok i => worth i
  | .error _ => 0

/-- The weight of the items of a run. -/
def total (worth : Item → Nat) (rs : List (Except Error Item)) : Nat :=
  (rs.map (resultWorth worth)).sum

/-- No call delivers more than it takes out of the buffer. -/
def Conserves (worth : Item → Nat) (weight : List Byte → Nat) (Inv : State → Prop)
    (call : State → List Byte → Answer State Byte Item Error) : Prop :=
  ∀ s buf, Inv s → Inv (call s buf).state ∧
    (call s buf).delivered worth + weight (call s buf).buf ≤ weight buf

variable {worth : Item → Nat} {weight : List Byte → Nat} {Inv : State → Prop}

@[simp] theorem total_nil : total worth ([] : List (Except Error Item)) = 0 := rfl

@[simp] theorem total_append (rs rs' : List (Except Error Item)) :
    total worth (rs ++ rs') = total worth rs + total worth rs' := by
  simp [total]

@[simp] theorem total_cons (r : Except Error Item) (rs : List (Except Error Item)) :
    total worth (r :: rs) = resultWorth worth r + total worth rs := by
  simp [total]

theorem Drained.cons_results (i : Item) (d : Drained State Byte Item Error) :
    (d.cons i).results = .ok i :: d.results := rfl

theorem total_results (d : Drained State Byte Item Error) :
    total worth d.results = total worth (d.items.map fun i => (.ok i : Except Error Item)) := by
  rw [Drained.results, total_append]
  cases d.error with
  | none => rfl
  | some e => simp [total, resultWorth]

theorem drain_conserves {call : State → List Byte → Answer State Byte Item Error}
    (consumes : ∀ s buf i, (call s buf).result = .ok (some i) →
      (call s buf).buf.length < buf.length)
    (h : Conserves worth weight Inv call) {s : State} {buf : List Byte} (hs : Inv s) :
    Inv (drain call consumes s buf).state ∧
      total worth (drain call consumes s buf).results + weight (drain call consumes s buf).buf ≤
        weight buf := by
  revert hs
  refine @drain_induct _ _ _ _ call consumes
    (fun s buf d => Inv s → Inv d.state ∧ total worth d.results + weight d.buf ≤ weight buf)
    ?error ?more ?frame s buf
  case error =>
    intro s buf s' buf' e hcall hs
    have hone := h s buf hs
    rw [hcall] at hone
    exact hone
  case more =>
    intro s buf s' buf' hcall hs
    have hone := h s buf hs
    rw [hcall] at hone
    exact hone
  case frame =>
    intro s buf s' buf' i hcall _ ih hs
    obtain ⟨hstate, hweight⟩ := h s buf hs
    rw [hcall] at hstate hweight
    obtain ⟨hend, hlater⟩ := ih hstate
    refine ⟨hend, ?_⟩
    simp only [Drained.cons_results, total_cons, resultWorth, Drained.cons_buf]
    simp only [Answer.delivered] at hweight
    omega

/-- A whole run delivers no more than it reads. -/
theorem Decoder.deliverFrom_conserves (D : Decoder State Byte Item Error)
    (hdecode : Conserves worth weight Inv D.decode)
    (heof : Conserves worth weight Inv D.decodeEof)
    (happend : ∀ as bs, weight (as ++ bs) ≤ weight as + weight bs)
    {s : State} {buf : List Byte} {reads : List (List Byte)} (hs : Inv s) :
    total worth (D.deliverFrom s buf reads) ≤ weight buf + (reads.map weight).sum := by
  induction reads generalizing s buf with
  | nil =>
    obtain ⟨-, hend⟩ :
        _ ∧ total worth (D.afterEof s buf).results + weight (D.afterEof s buf).buf ≤ weight buf :=
      drain_conserves D.decodeEof_consumes heof hs
    rw [D.deliverFrom_nil]
    exact Nat.le_trans (Nat.le_of_add_right_le hend) (Nat.le_add_right _ _)
  | cons r rs ih =>
    obtain ⟨hstate, hread⟩ : Inv (D.afterRead s (buf ++ r)).state ∧
        total worth (D.afterRead s (buf ++ r)).results + weight (D.afterRead s (buf ++ r)).buf ≤
          weight (buf ++ r) :=
      drain_conserves D.decode_consumes hdecode hs
    have hboth := happend buf r
    rw [List.map_cons, List.sum_cons]
    cases herr : (D.afterRead s (buf ++ r)).error with
    | some e =>
      rw [D.deliverFrom_cons_error herr]
      omega
    | none =>
      have hlater : total worth (D.deliverFrom _ (D.afterRead s (buf ++ r)).buf rs) ≤ _ := ih hstate
      rw [D.deliverFrom_cons herr, total_append, ← total_results]
      omega

end Weight

/-! ### The calls of a run

A run delivers only items with a property if and only if every call it makes was
made where the decoder returns no other item. -/

section Calls
variable {call : State → List Byte → Answer State Byte Item Error}
variable {Inv : State → Prop} {Q : Item → Prop} {P : State → List Byte → Prop}

/-- The states and buffers at which a loop calls. -/
def drainCalls (call : State → List Byte → Answer State Byte Item Error)
    (consumes : ∀ s buf i, (call s buf).result = .ok (some i) →
      (call s buf).buf.length < buf.length)
    (s : State) (buf : List Byte) : List (State × List Byte) :=
  (s, buf) ::
    match _h : (call s buf).result with
    | .ok (some _) => drainCalls call consumes (call s buf).state (call s buf).buf
    | _ => []
termination_by buf.length
decreasing_by exact consumes s buf _ _h

/-- The states and buffers at which a run calls. -/
def Decoder.calls (D : Decoder State Byte Item Error) :
    State → List Byte → List (List Byte) → List (State × List Byte)
  | s, buf, [] => drainCalls D.decodeEof D.decodeEof_consumes s buf
  | s, buf, r :: rs =>
    let d := D.afterRead s (buf ++ r)
    drainCalls D.decode D.decode_consumes s (buf ++ r) ++
      if d.error.isSome then [] else D.calls d.state d.buf rs

/-- `P` says where a call returns an item with the property, if it returns one. -/
def Allows (Inv : State → Prop) (Q : Item → Prop) (P : State → List Byte → Prop)
    (call : State → List Byte → Answer State Byte Item Error) : Prop :=
  ∀ s buf, Inv s → Inv (call s buf).state ∧
    ((∀ i, (call s buf).result = .ok (some i) → Q i) ↔ P s buf)

theorem drainCalls_some {consumes : ∀ s buf i, (call s buf).result = .ok (some i) →
      (call s buf).buf.length < buf.length} {s s' : State} {buf buf' : List Byte} {i : Item}
    (h : call s buf = ⟨.ok (some i), s', buf'⟩) :
    drainCalls call consumes s buf = (s, buf) :: drainCalls call consumes s' buf' := by
  rw [drainCalls]
  split <;> simp_all

theorem drain_allows
    (consumes : ∀ s buf i, (call s buf).result = .ok (some i) →
      (call s buf).buf.length < buf.length)
    (h : Allows Inv Q P call) {s : State} {buf : List Byte} (hs : Inv s) :
    Inv (drain call consumes s buf).state ∧
      ((∀ i ∈ (drain call consumes s buf).items, Q i) ↔
        ∀ at' ∈ drainCalls call consumes s buf, P at'.1 at'.2) := by
  revert hs
  refine @drain_induct _ _ _ _ call consumes (fun s buf d => Inv s → Inv d.state ∧
    ((∀ i ∈ d.items, Q i) ↔ ∀ at' ∈ drainCalls call consumes s buf, P at'.1 at'.2))
    ?error ?more ?frame s buf
  case error =>
    intro s buf s' buf' e hcall hs
    obtain ⟨hstate, hiff⟩ := h s buf hs
    rw [hcall] at hstate hiff
    rw [drainCalls]
    exact ⟨hstate, by simpa [hcall] using hiff⟩
  case more =>
    intro s buf s' buf' hcall hs
    obtain ⟨hstate, hiff⟩ := h s buf hs
    rw [hcall] at hstate hiff
    rw [drainCalls]
    exact ⟨hstate, by simpa [hcall] using hiff⟩
  case frame =>
    intro s buf s' buf' i hcall _ ih hs
    obtain ⟨hstate, hiff⟩ := h s buf hs
    rw [hcall] at hstate hiff
    obtain ⟨hlast, hlater⟩ := ih hstate
    have hfirst : Q i ↔ P s buf := by
      rw [← hiff]
      simp
    refine ⟨hlast, ?_⟩
    rw [drainCalls_some hcall]
    simp only [Drained.cons_items, List.forall_mem_cons, hfirst, hlater]

/-- The items of a run have the property exactly when its calls are made where they must be. -/
theorem Decoder.deliverFrom_allows (D : Decoder State Byte Item Error)
    (hdecode : Allows Inv Q P D.decode) (heof : Allows Inv Q P D.decodeEof) {s : State}
    {buf : List Byte} {reads : List (List Byte)} (hs : Inv s) :
    (∀ i, .ok i ∈ D.deliverFrom s buf reads → Q i) ↔
      ∀ at' ∈ D.calls s buf reads, P at'.1 at'.2 := by
  have hresults : ∀ (d : Drained State Byte Item Error) i, .ok i ∈ d.results ↔ i ∈ d.items := by
    intro d i
    cases h : d.error with
    | none => simp [Drained.results, h]
    | some e => simp [Drained.results, h]
  induction reads generalizing s buf with
  | nil =>
    have hend : (∀ i ∈ (D.afterEof s buf).items, Q i) ↔ ∀ at' ∈ D.calls s buf [], P at'.1 at'.2 :=
      (drain_allows D.decodeEof_consumes heof hs).2
    rw [D.deliverFrom_nil, ← hend]
    exact forall_congr' fun i => imp_congr_left (hresults _ i)
  | cons r rs ih =>
    obtain ⟨hstate, hread⟩ : Inv (D.afterRead s (buf ++ r)).state ∧
        ((∀ i ∈ (D.afterRead s (buf ++ r)).items, Q i) ↔
          ∀ at' ∈ drainCalls D.decode D.decode_consumes s (buf ++ r), P at'.1 at'.2) :=
      drain_allows D.decode_consumes hdecode hs
    rw [calls]
    cases herr : (D.afterRead s (buf ++ r)).error with
    | some e =>
      rw [D.deliverFrom_cons_error herr]
      simp only [Option.isSome_some, if_true, List.append_nil]
      rw [← hread]
      exact forall_congr' fun i => imp_congr_left (hresults _ i)
    | none =>
      rw [D.deliverFrom_cons herr]
      simp only [Option.isSome_none, Bool.false_eq_true, if_false]
      have hlater : (∀ i, .ok i ∈ D.deliverFrom _ (D.afterRead s (buf ++ r)).buf rs → Q i) ↔ _ :=
        ih hstate
      rw [List.forall_mem_append, ← hread, ← hlater]
      constructor
      · intro hall
        refine ⟨?_, ?_⟩
        · intro i hi
          exact hall i (List.mem_append_left _ (List.mem_map_of_mem hi))
        · intro i hi
          exact hall i (List.mem_append_right _ hi)
      · rintro ⟨hnow, hrest⟩ i hi
        rcases List.mem_append.mp hi with hi | hi
        · obtain ⟨j, hj, hji⟩ := List.mem_map.mp hi
          cases hji
          exact hnow i hj
        · exact hrest i hi

end Calls

end Liaozhai.Framed
