import Liaozhai.Net.Authentication
import Liaozhai.Net.Conversation
import Liaozhai.Net.Selection
import Liaozhai.Net.Telnet
import Liaozhai.Net.WorldList

/-!
# On the wire

What a terminal makes of the handler's output: it is telnet, with commands only
between whole texts; the texts are UTF-8, and their lines end with CR LF. While the
handler waits, the last thing on the screen is the prompt of the session.
-/

namespace Liaozhai.Net.Connection

open Auth Codec Constants Worlds
open Lines (Plain)
open RustString (parseUsize replace trim)
open Telnet (parse)
open Utf8Lossy (asBytes asBytes_append)
open WorldList (Unbroken)
set_option autoImplicit false

/-- Each CR is followed by LF and each LF preceded by CR; `after` says that a CR has
just been read. -/
def crLf : Bool → List UInt8 → Bool
  | after, [] => !after
  | true, b :: bs => b == LF && crLf false bs
  | false, b :: bs => if b = CR then crLf true bs else b != LF && crLf false bs

/-- A terminal reads a text of whole lines and is ready for more. -/
def WellFormed (bytes : List UInt8) : Prop :=
  ∃ text, parse .data bytes = (.data, asBytes text) ∧ crLf false (asBytes text) = true

section Texts
variable {as bs : List UInt8} {s t : String}

theorem crLf_append {after : Bool} (h : crLf after as = true) :
    crLf after (as ++ bs) = crLf false bs := by
  induction as generalizing after with
  | nil =>
    cases after with
    | true => cases h
    | false => rfl
  | cons b as ih =>
    cases after with
    | true =>
      obtain ⟨hlf, hrest⟩ := Bool.and_eq_true_iff.mp h
      rw [List.cons_append, crLf, hlf, Bool.true_and]
      exact ih hrest
    | false =>
      rw [crLf] at h
      rw [List.cons_append, crLf]
      split at h
      · rename_i hcr
        rw [if_pos hcr]
        exact ih h
      · rename_i hcr
        obtain ⟨hlf, hrest⟩ := Bool.and_eq_true_iff.mp h
        rw [if_neg hcr, hlf, Bool.true_and]
        exact ih hrest

theorem crLf_plain (h : Plain as) : crLf false as = true := by
  induction as with
  | nil => rfl
  | cons b as ih =>
    obtain ⟨hlf, hcr, hrest⟩ := h.cons
    rw [crLf, if_neg hcr, Bool.and_eq_true_iff, bne_iff_ne]
    exact ⟨hlf, ih hrest⟩

/-- Lines that are each ended with CR LF. -/
theorem crLf_lines {lines : List (List UInt8)} (h : ∀ line ∈ lines, Plain line) :
    crLf false (lines.flatMap fun line => line ++ [CR, LF]) = true := by
  induction lines with
  | nil => rfl
  | cons line lines ih =>
    have hline := crLf_plain (h line List.mem_cons_self)
    rw [List.flatMap_cons, List.append_assoc, crLf_append hline]
    exact ih fun line hmem => h line (List.mem_cons_of_mem _ hmem)

theorem crLf_texts (hs : crLf false (asBytes s) = true) (ht : crLf false (asBytes t) = true) :
    crLf false (asBytes (s ++ t)) = true := by
  rw [asBytes_append, crLf_append hs]
  exact ht

theorem crLf_unbroken (h : Unbroken s) : crLf false (asBytes s) = true :=
  crLf_plain (WorldList.plain_asBytes.mpr h)

/-- What is sent as it stands in the source, whole or around a name. -/
def fixedTexts : List String :=
  [banner ++ usernamePrompt, authRateLimitedMsg, goodbyeMsg, lineTooLongMsg, bufferOverflowMsg,
    shutdownMsg, authInternalErrorMsg, authMaxRetriesMsg, authFailedMsg ++ usernamePrompt,
    emptyUsernameMsg ++ usernamePrompt, passwordPrompt, emptyPasswordMsg ++ passwordPrompt,
    worldSelectionNonNumericMsg, "Please enter a number between 1 and ", ".\r\n", "\r\n",
    "In v0.1, you would now be in ", ". Disconnecting.\r\n", "Welcome, ", ".\r\n\r\n"]

theorem crLf_fixed (h : s ∈ fixedTexts) : crLf false (asBytes s) = true := by
  have hall : (fixedTexts.all fun text => crLf false (asBytes text)) = true := by decide +kernel
  exact List.all_eq_true.mp hall s h

theorem wellFormed_nil : WellFormed [] := ⟨"", rfl, rfl⟩

theorem wellFormed_append (has : WellFormed as) (hbs : WellFormed bs) : WellFormed (as ++ bs) := by
  obtain ⟨s, hs, hsLines⟩ := has
  obtain ⟨t, ht, htLines⟩ := hbs
  refine ⟨s ++ t, ?_, crLf_texts hsLines htLines⟩
  rw [Telnet.parse_append, hs, ht, asBytes_append]

theorem parse_text (text : String) : parse .data (asBytes text) = (.data, asBytes text) :=
  Telnet.parse_data fun hmem => Utf8Lossy.byte_ne_of_mem_asBytes hmem rfl

theorem wellFormed_text (h : crLf false (asBytes s) = true) : WellFormed (asBytes s) :=
  ⟨s, parse_text s, h⟩

theorem wellFormed_will : WellFormed iacWillEcho := ⟨"", rfl, rfl⟩

theorem wellFormed_wont : WellFormed iacWontEcho := ⟨"", rfl, rfl⟩

/-- A command before a text, or the text without it. -/
theorem wellFormed_of_wont (h : WellFormed (iacWontEcho ++ bs)) : WellFormed bs := by
  obtain ⟨text, htext, hlines⟩ := h
  exact ⟨text, htext, hlines⟩

theorem replace_welcome (name : String) :
    replace welcomeTemplate "{username}" name = "Welcome, " ++ (name ++ ".\r\n\r\n") := by
  apply String.toList_injective
  rw [replace, String.toList_ofList, String.toList_append, String.toList_append]
  rfl

theorem replace_selectPrompt (count : String) :
    replace worldSelectPromptTemplate "{n}" count =
      "Select a world (1-" ++ (count ++ ", or 'quit'): ") := by
  apply String.toList_injective
  rw [replace, String.toList_ofList, String.toList_append, String.toList_append]
  rfl

theorem crLf_selectPrompt (count : Nat) :
    crLf false (asBytes (formatWorldSelectPrompt count)) = true := by
  rw [formatWorldSelectPrompt, replace_selectPrompt]
  apply crLf_unbroken
  rw [WorldList.unbroken_append, WorldList.unbroken_append]
  exact ⟨by decide, WorldList.unbroken_toString count, by decide⟩

theorem crLf_outOfRange (count : Nat) :
    crLf false (asBytes (replace worldSelectionOutOfRangeMsg "{n}" (toString count))) = true := by
  rw [Session.replace_outOfRange]
  apply crLf_texts (crLf_fixed (by simp [fixedTexts]))
  apply crLf_texts (crLf_unbroken (WorldList.unbroken_toString count))
  exact crLf_fixed (by simp [fixedTexts])

theorem crLf_farewell {world : WorldMetadata} (h : Unbroken world.name) :
    crLf false (asBytes (farewell world)) = true := by
  rw [farewell, replace_worldSelected]
  apply crLf_texts (crLf_fixed (by simp [fixedTexts]))
  apply crLf_texts (crLf_fixed (by simp [fixedTexts]))
  exact crLf_texts (crLf_unbroken h) (crLf_fixed (by simp [fixedTexts]))

/-- The names and descriptions of the registry have no line breaks. -/
def Printable (registry : WorldRegistry) : Prop :=
  ∀ world ∈ registry.worlds, Unbroken world.name ∧ Unbroken world.shortDescription

theorem crLf_worldList {registry : WorldRegistry} {list : String} (h : Printable registry)
    (hlist : formatWorldList registry.worlds = some list) : crLf false (asBytes list) = true := by
  obtain ⟨_, rfl⟩ := WorldList.formatWorldList_eq_some.mp hlist
  rw [WorldList.asBytes_listText]
  apply crLf_lines
  intro line hline
  obtain ⟨text, htext, rfl⟩ := List.mem_map.mp hline
  rw [WorldList.plain_asBytes]
  rcases List.mem_cons.mp htext with rfl | hrow
  · exact WorldList.unbroken_worldsHeader
  · obtain ⟨⟨world, i⟩, hworld, rfl⟩ := List.mem_map.mp hrow
    exact WorldList.unbroken_rowText.mpr (h world (List.fst_mem_of_mem_zipIdx hworld))

theorem crLf_welcome {registry : WorldRegistry} {account : Account} {text : String}
    (h : Printable registry) (hname : Unbroken account.username)
    (hwelcome : welcome registry account = some text) : crLf false (asBytes text) = true := by
  obtain ⟨list, hlist, rfl⟩ := Option.map_eq_some_iff.mp hwelcome
  have hgreeting : crLf false (asBytes (replace welcomeTemplate "{username}" account.username)) =
      true := by
    rw [replace_welcome]
    apply crLf_texts (crLf_fixed (by simp [fixedTexts]))
    exact crLf_texts (crLf_unbroken hname) (crLf_fixed (by simp [fixedTexts]))
  apply crLf_texts _ (crLf_selectPrompt _)
  apply crLf_texts _ (crLf_fixed (by simp [fixedTexts]))
  exact crLf_texts hgreeting (crLf_worldList h hlist)

end Texts

variable {ctx : SessionContext} {c c' : Connection} {e : Event} {es : List Event}
  {k : Conversation} {bytes : List UInt8}

theorem wellFormed_one {words : String} (h : crLf false (asBytes words) = true) :
    WellFormed ([Said.text words].flatMap Said.bytes) := by
  rw [List.flatMap_singleton]
  exact wellFormed_text h

theorem mem_of_getByPosition {registry : WorldRegistry} {n : Nat} {world : WorldMetadata}
    (h : registry.getByPosition n = some world) : world ∈ registry.worlds := by
  obtain ⟨_, h⟩ := Option.ite_none_left_eq_some.mp h
  exact List.mem_of_getElem? h

theorem chosen_mem {registry : WorldRegistry} {line : String} {world : WorldMetadata}
    (h : chosen registry line = .ok world) : world ∈ registry.worlds := by
  unfold chosen at h
  split at h
  · cases h
  · split at h
    · rename_i hworld
      obtain rfl := Except.ok.inj h
      exact mem_of_getByPosition hworld
    · cases h

theorem crLf_complaint {registry : WorldRegistry} {line complaint : String}
    (h : chosen registry line = .error complaint) :
    crLf false (asBytes (complaint ++ formatWorldSelectPrompt registry.len)) = true := by
  apply crLf_texts _ (crLf_selectPrompt _)
  unfold chosen at h
  split at h
  · obtain rfl := Except.error.inj h
    exact crLf_fixed (by simp [fixedTexts])
  · split at h
    · cases h
    · obtain rfl := Except.error.inj h
      exact crLf_outOfRange _

theorem wellFormed_typed (hprintable : Printable ctx.worldRegistry) (k : Conversation)
    (line : String) : WellFormed ((k.typed ctx line).2.flatMap Said.bytes) := by
  unfold Conversation.typed
  split
  · split_ifs
    · exact wellFormed_one (crLf_fixed (by simp [fixedTexts]))
    · exact wellFormed_one (crLf_fixed (by simp [fixedTexts]))
    · rw [bytes_two]
      exact wellFormed_append wellFormed_will (wellFormed_text (crLf_fixed (by simp [fixedTexts])))
  · split_ifs
    · rw [bytes_two]
      exact wellFormed_append wellFormed_wont (wellFormed_text (crLf_fixed (by simp [fixedTexts])))
    · exact wellFormed_one (crLf_fixed (by simp [fixedTexts]))
    · rw [List.flatMap_singleton]
      exact wellFormed_wont
  · split_ifs
    · exact wellFormed_one (crLf_fixed (by simp [fixedTexts]))
    · split
      · rename_i world hchosen
        exact wellFormed_one (crLf_farewell (hprintable world (chosen_mem hchosen)).1)
      · rename_i complaint hchosen
        exact wellFormed_one (crLf_complaint hchosen)
  · exact wellFormed_nil

/-- What the conversation says is well-formed, if the names in it are. -/
theorem wellFormed_respond (hprintable : Printable ctx.worldRegistry) (k : Conversation)
    {told : Told} (hname : ∀ account, told = .checked (.ok (some account)) →
      Unbroken account.username) :
    WellFormed ((k.respond ctx told).2.flatMap Said.bytes) := by
  match told with
  | .throttled true | .throttled false | .item (some (.ok .lineTooLong))
  | .item (some (.error (.bufferOverflow _))) | .stopped | .checked (.error _) =>
    exact wellFormed_one (crLf_fixed (by simp [fixedTexts]))
  | .item (some (.ok (.line line))) => exact wellFormed_typed hprintable k line
  | .item (some (.error (.io _))) | .item none | .lost => exact wellFormed_nil
  | .checked (.ok (some account)) =>
    rw [Conversation.respond, Conversation.checked]
    split
    · rename_i hwelcome
      exact wellFormed_one (crLf_welcome hprintable (hname account rfl) hwelcome)
    · exact wellFormed_nil
  | .checked (.ok none) =>
    rw [Conversation.respond, Conversation.checked]
    split_ifs
    · exact wellFormed_one (crLf_fixed (by simp [fixedTexts]))
    · exact wellFormed_one (crLf_fixed (by simp [fixedTexts]))

/-- A write is all that is owed, but for the echo before a farewell. -/
theorem owed_of_output (hout : output c.point = some bytes) :
    bytes = iacWontEcho ∨ owed ctx c = bytes := by
  cases hp : c.point with
  | restoreEchoGoodbye goodbye =>
    rw [hp] at hout
    obtain rfl := Option.some.inj hout
    exact .inl rfl
  | start | limitedShutdown | waiting | verify _ _ | verifying _ _ | reset _ | recordLogin _
  | recordFailure | closing | closed _ | panicked =>
    rw [hp] at hout
    cases hout
  | limitedNotice | banner | shutdownNotice | stay _ | advance _ _ | restoreEcho _ _
  | storeErrorNotice | maxRetriesNotice | goodbye _ | lineTooLongNotice | bufferOverflowNotice =>
    rw [hp] at hout
    obtain rfl := Option.some.inj hout
    right
    rw [owed, hp]
    rfl

/-- A step writes what is well-formed, and what it still owes is. -/
theorem wellFormed_step (hprintable : Printable ctx.worldRegistry)
    (hname : ∀ account, e = .verifyReturned (.ok (some account)) → Unbroken account.username)
    (haligned : Aligned ctx c) (howed : WellFormed (owed ctx c)) (hstep : step ctx c e = some c') :
    WellFormed (emitted [e]) ∧ WellFormed (owed ctx c') := by
  have hkeeps := (keeps_step haligned hstep).2
  have hanswer : WellFormed (Lagging.answer (reply ctx) (view ctx c) (told? e)).2 := by
    cases htold : told? e with
    | none => exact wellFormed_nil
    | some told =>
      apply wellFormed_respond hprintable
      rintro account rfl
      apply hname account
      cases e with
      | verifyReturned result =>
        obtain ⟨⟩ := Option.some.inj htold
        rfl
      | wrote bytes result =>
        cases result with
        | ok _ => cases htold
        | error _ => cases htold
      | throttleChecked | shutDown | received | cancelled | verifyCalled | limiterReset
      | loginRecorded | failureRecorded => cases htold
  have hall := wellFormed_append howed hanswer
  rw [← hkeeps] at hall
  have hquiet : emitted [e] = [] → WellFormed (emitted [e]) ∧ WellFormed (owed ctx c') := by
    intro hnil
    rw [hnil, List.nil_append] at hall
    rw [hnil]
    exact ⟨wellFormed_nil, hall⟩
  cases step_cases hstep with
  | @wrote bytes result hout =>
    have hsent : emitted [.wrote bytes result] = bytes := List.flatMap_singleton _ _
    rw [hsent] at hkeeps hall ⊢
    rcases @owed_of_output ctx c bytes hout with rfl | rfl
    · exact ⟨wellFormed_wont, wellFormed_of_wont hall⟩
    · have hnothing : (Lagging.answer (reply ctx) (view ctx c) (told? (.wrote (owed ctx c) result))).2
          = [] := by
        cases result with
        | ok _ => rfl
        | error _ => rfl
      rw [hnothing] at hkeeps
      rw [List.append_cancel_left hkeeps]
      exact ⟨howed, wellFormed_nil⟩
  | throttleChecked | shutDown | received | cancelled | verifyCalled | verifyReturned | limiterReset
  | loginRecorded | maxRetries | retry => exact hquiet rfl

/-- In every run, whatever fails, a terminal reads what the handler has written as
UTF-8 text in lines of CR LF, and no command is left open, as long as the names in it
have no line breaks. -/
theorem emitted_wellFormed (hprintable : Printable ctx.worldRegistry)
    (hnames : ∀ account, .verifyReturned (.ok (some account)) ∈ es → Unbroken account.username)
    (hrun : run ctx (new ctx) es = some c) : WellFormed (emitted es) := by
  have hall := Machine.run_history (P := fun pre t => pre <+: es →
    Aligned ctx t ∧ WellFormed (emitted pre) ∧ WellFormed (owed ctx t)) ?_ ?_ hrun
  · exact (hall (List.prefix_refl _)).2.1
  · intro pre t e t' _ ih hstep hpre
    obtain ⟨haligned, hsent, howed⟩ := ih ((List.prefix_append pre [e]).trans hpre)
    have hname : ∀ account, e = .verifyReturned (.ok (some account)) →
        Unbroken account.username := by
      rintro account rfl
      apply hnames account
      exact hpre.subset (List.mem_append_right _ List.mem_cons_self)
    obtain ⟨hnow, hlater⟩ := wellFormed_step hprintable hname haligned howed hstep
    refine ⟨aligned_step haligned hstep, ?_, hlater⟩
    have hsplit : emitted (pre ++ [e]) = emitted pre ++ emitted [e] := List.flatMap_append
    rw [hsplit]
    exact wellFormed_append hsent hnow
  · intro _
    exact ⟨⟨rfl, rfl⟩, wellFormed_nil, wellFormed_nil⟩

theorem emitted_wellFormed_secondAttempt : WellFormed (emitted secondAttempt) := by
  have hrun : run teaHouse (new teaHouse) secondAttempt =
      some ⟨.waiting, ⟨.worldSelection alice, teaHouse.worldRegistry⟩, 1, 4⟩ := by decide +kernel
  refine emitted_wellFormed ?_ ?_ hrun
  · intro world hworld
    obtain rfl := List.mem_singleton.mp hworld
    decide +kernel
  · intro account hmem
    have halice : account = alice := by
      simpa [secondAttempt, lineReceived, passwordPrompted] using hmem
    rw [halice]
    decide +kernel

/-! ### The prompt -/

def promptOf (registry : WorldRegistry) : Stage → Option String
  | .name => some usernamePrompt
  | .password _ => some passwordPrompt
  | .world _ => some (formatWorldSelectPrompt registry.len)
  | .greeting | .checking _ | .ended => none

/-- The bytes end with the text, but for notices about lines that were too long. -/
def EndsWith (text : String) (bytes : List UInt8) : Prop :=
  ∃ before n, bytes = before ++ asBytes text ++ (List.replicate n (asBytes lineTooLongMsg)).flatten

theorem endsWith_one (s text : String) : EndsWith text ([Said.text (s ++ text)].flatMap Said.bytes) := by
  refine ⟨asBytes s, 0, ?_⟩
  rw [List.flatMap_singleton, List.replicate_zero, List.flatten_nil, List.append_nil]
  exact asBytes_append s text

theorem EndsWith.append {text : String} (h : EndsWith text bytes) (before : List UInt8) :
    EndsWith text (before ++ bytes) := by
  obtain ⟨rest, n, rfl⟩ := h
  refine ⟨before ++ rest, n, ?_⟩
  simp only [List.append_assoc]

theorem EndsWith.notice {text : String} (h : EndsWith text bytes) :
    EndsWith text (bytes ++ asBytes lineTooLongMsg) := by
  obtain ⟨before, n, rfl⟩ := h
  refine ⟨before, n + 1, ?_⟩
  rw [List.replicate_succ', List.flatten_append, List.flatten_singleton, List.append_assoc]

theorem typed_prompts {line text : String}
    (h : promptOf ctx.worldRegistry (k.typed ctx line).1.stage = some text) :
    EndsWith text ((k.typed ctx line).2.flatMap Said.bytes) := by
  unfold Conversation.typed at h ⊢
  cases hstage : k.stage with
  | name =>
    simp only [hstage] at h ⊢
    split_ifs at h ⊢
    · cases h
    · rw [hstage] at h
      obtain rfl := Option.some.inj h
      exact endsWith_one emptyUsernameMsg usernamePrompt
    · obtain rfl := Option.some.inj h
      rw [bytes_two]
      refine ⟨iacWillEcho, 0, ?_⟩
      rw [List.replicate_zero, List.flatten_nil, List.append_nil]
      rfl
  | password username =>
    simp only [hstage] at h ⊢
    split_ifs at h ⊢
    · cases h
    · rw [hstage] at h
      obtain rfl := Option.some.inj h
      exact endsWith_one emptyPasswordMsg passwordPrompt
    · cases h
  | world account =>
    simp only [hstage] at h ⊢
    split_ifs at h ⊢
    · cases h
    · cases hchosen : chosen ctx.worldRegistry line with
      | ok world =>
        rw [hchosen] at h
        cases h
      | error complaint =>
        rw [hchosen] at h
        simp only [hstage] at h
        obtain rfl := Option.some.inj h
        exact endsWith_one complaint _
  | greeting | checking _ | ended =>
    simp only [hstage] at h
    cases h

/-- An answer leads to a prompt by showing it, unless it is a notice and changes nothing. -/
theorem respond_prompts {told : Told} {text : String}
    (h : promptOf ctx.worldRegistry (k.respond ctx told).1.stage = some text) :
    k.respond ctx told = (k, [.text lineTooLongMsg]) ∨
      EndsWith text ((k.respond ctx told).2.flatMap Said.bytes) := by
  match told with
  | .item (some (.ok .lineTooLong)) => exact .inl rfl
  | .item (some (.ok (.line line))) => exact .inr (typed_prompts h)
  | .throttled false =>
    obtain rfl := Option.some.inj h
    exact .inr (endsWith_one banner usernamePrompt)
  | .throttled true | .item (some (.error (.bufferOverflow _))) | .item (some (.error (.io _)))
  | .item none | .lost | .stopped | .checked (.error _) => cases h
  | .checked (.ok (some account)) =>
    right
    rw [Conversation.respond, Conversation.checked] at h ⊢
    split at h
    · rename_i hwelcome
      obtain ⟨list, _, rfl⟩ := Option.map_eq_some_iff.mp hwelcome
      obtain rfl := Option.some.inj h
      exact endsWith_one _ _
    · cases h
  | .checked (.ok none) =>
    rw [Conversation.respond, Conversation.checked] at h ⊢
    split_ifs at h ⊢
    · cases h
    · obtain rfl := Option.some.inj h
      exact .inr (endsWith_one authFailedMsg usernamePrompt)

/-- Whenever a conversation is at a prompt, the prompt is the last thing that was said,
but for notices. -/
theorem converse_prompts (told : List Told) {text : String}
    (h : promptOf ctx.worldRegistry (Conversation.converse ctx told).1.stage = some text) :
    EndsWith text ((Conversation.converse ctx told).2.flatMap Said.bytes) := by
  induction told using List.reverseRecOn with
  | nil => cases h
  | append_singleton told last ih =>
    rw [Conversation.converse, Transducer.run_append, Transducer.run_cons, Transducer.run_nil] at h ⊢
    rw [List.flatMap_append, List.append_nil]
    rcases respond_prompts h with hnotice | hshown
    · rw [hnotice] at h ⊢
      rw [List.flatMap_singleton]
      exact (ih h).notice
    · exact hshown.append _

/-- The points after a write that failed, where no more input is read. -/
def Ended : Point → Prop
  | .limitedShutdown | .goodbye _ | .closing | .closed _ | .panicked => True
  | _ => False

theorem ended_of_lost {error : String} (hout : output c.point = some bytes) :
    Ended (c.afterWrite (.error error)).point := by
  cases hp : c.point with
  | start | limitedShutdown | waiting | verify _ _ | verifying _ _ | reset _ | recordLogin _
  | recordFailure | closing | closed _ | panicked =>
    rw [hp] at hout
    cases hout
  | limitedNotice | banner | shutdownNotice | stay _ | advance _ _ | restoreEcho _ _
  | storeErrorNotice | maxRetriesNotice | restoreEchoGoodbye _ | goodbye _ | lineTooLongNotice
  | bufferOverflowNotice =>
    simp only [afterWrite, hp, continueIf, goTo, Ended]

theorem ended_step (h : Ended c.point) (hstep : step ctx c e = some c') : Ended c'.point := by
  cases step_cases hstep with
  | wrote result hout =>
    cases hp : c.point with
    | goodbye _ =>
      simp only [afterWrite, hp, goTo, Ended]
    | start | limitedNotice | banner | waiting | shutdownNotice | stay _ | advance _ _
    | restoreEcho _ _ | verify _ _ | verifying _ _ | storeErrorNotice | reset _ | recordLogin _
    | recordFailure | maxRetriesNotice | restoreEchoGoodbye _ | lineTooLongNotice
    | bufferOverflowNotice =>
      rw [hp] at h
      exact h.elim
    | closing | closed _ | panicked | limitedShutdown =>
      rw [hp] at hout
      cases hout
  | shutDown _ _ => trivial
  | throttleChecked _ hp | received _ hp | cancelled hp | verifyCalled hp | verifyReturned _ hp
  | limiterReset hp | loginRecorded _ hp | maxRetries hp _ | retry hp _ =>
    rw [hp] at h
    exact h.elim

/-- After a write that failed nothing is waited for. -/
theorem writesSucceed_or_ended (hrun : run ctx (new ctx) es = some c) :
    WritesSucceed es ∨ Ended c.point := by
  apply Machine.run_history (P := fun es c => WritesSucceed es ∨ Ended c.point) _ _ hrun
  · intro pre t e t' _ ih hstep
    rcases ih with hok | hended
    · by_cases hlost : ∃ bytes error, e = .wrote bytes (.error error)
      · obtain ⟨bytes, error, rfl⟩ := hlost
        right
        cases step_cases hstep with
        | wrote _ hout => exact ended_of_lost hout
      · left
        intro bytes result hmem
        rcases List.mem_append.mp hmem with hmem | hmem
        · exact hok bytes result hmem
        · obtain rfl := List.mem_singleton.mp hmem
          cases result with
          | ok _ => rfl
          | error error => exact absurd ⟨bytes, error, rfl⟩ hlost
    · exact .inr (ended_step hended hstep)
  · left
    intro bytes result hmem
    cases hmem

theorem written_eq_emitted (h : WritesSucceed es) : written es = emitted es := by
  apply List.flatMap_congr
  intro e he
  cases e with
  | wrote bytes result =>
    obtain rfl := h bytes result he
    rfl
  | throttleChecked | shutDown | received | cancelled | verifyCalled | verifyReturned | limiterReset
  | loginRecorded | failureRecorded => rfl

/-- Every state of a session has its prompt. -/
theorem promptOf_stageOf (registry : WorldRegistry) (state : SessionState) :
    ∃ text, promptOf registry (stageOf state) = some text := by
  cases state with
  | authenticating username =>
    cases username with
    | none => exact ⟨_, rfl⟩
    | some username => exact ⟨_, rfl⟩
  | worldSelection account => exact ⟨_, rfl⟩

/-- Whenever the handler waits for input, all its writes have succeeded, and the last
thing that the client was sent is the prompt of the session, but for notices about
lines that were too long. -/
theorem prompt_shown (hrun : run ctx (new ctx) es = some c) (hwaiting : c.point = .waiting) :
    WritesSucceed es ∧ ∃ text, promptOf ctx.worldRegistry (stageOf c.session.state) = some text ∧
      EndsWith text (written es) := by
  obtain ⟨hview, hsent⟩ := said_run hrun
  have hok : WritesSucceed es := by
    rcases writesSucceed_or_ended hrun with hok | hended
    · exact hok
    · rw [hwaiting] at hended
      exact hended.elim
  have hstage : (Conversation.converse ctx (es.filterMap told?)).1.stage =
      stageOf c.session.state := by
    rw [← hview]
    simp only [view, hwaiting]
  have howed : owed ctx c = [] := by
    simp only [owed, hwaiting, output, Option.getD_none]
  rw [howed, List.append_nil] at hsent
  obtain ⟨text, htext⟩ := promptOf_stageOf ctx.worldRegistry c.session.state
  refine ⟨hok, text, htext, ?_⟩
  rw [written_eq_emitted hok, hsent]
  rw [← hstage] at htext
  exact converse_prompts _ htext

theorem prompt_shown_nameGiven :
    WritesSucceed nameGiven ∧ EndsWith passwordPrompt (written nameGiven) := by
  have hrun : run ⟨⟨[]⟩, 3⟩ (new ⟨⟨[]⟩, 3⟩) nameGiven =
      some ⟨.waiting, ⟨.authenticating (some "alice"), ⟨[]⟩⟩, 0, 1⟩ := by decide +kernel
  obtain ⟨hok, text, htext, hshown⟩ := prompt_shown hrun rfl
  obtain rfl := Option.some.inj htext
  exact ⟨hok, hshown⟩

end Liaozhai.Net.Connection
