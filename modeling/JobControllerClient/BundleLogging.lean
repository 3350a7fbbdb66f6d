import Mathlib.Data.List.DropRight
import Mathlib.Tactic

/-! The log lines of bundles: `write_log` with its thread-local line buffer, under the
`ThreadBundleGuard`s of the calls that one thread executes. The buffer does not know
where its parts come from; tag and level are those of the write that ends the line. -/
namespace JobControllerClient
namespace BundleLogging

inductive Stream
  | stdout | stderr
  deriving DecidableEq

/-- A Python string may hold lone surrogates, U+D800 to U+DFFF. -/
inductive CodePoint
  | char (c : Char)
  | surrogate (n : Fin 2048)
  deriving DecidableEq

/-- A string that Python passes to `write`, without a NUL. -/
structure Write where
  stream : Stream
  msg : List CodePoint
  nul_free : .char (Char.ofNat 0) ∉ msg
  deriving DecidableEq

structure Call where
  bundleHash : String
  writes : List Write
  deriving DecidableEq

structure Origin where
  bundleHash : String
  stream : Stream
  deriving DecidableEq

/-- A text with its origin, which is recorded for the reader only. -/
structure Part (α : Type) where
  origin : Origin
  text : List α
  deriving DecidableEq

/-- A line `Bundle [bundleHash]: …`, at level info for stdout and at level error for stderr. -/
structure Line where
  origin : Origin
  parts : List (Part Char)
  deriving DecidableEq

def Line.text (line : Line) : List Char := line.parts.flatMap (·.text)

structure Output where
  parts : List (Part Char)
  lines : List Line
  deriving DecidableEq

def terminated {α : Type} [DecidableEq α] (newline : α) (msg : List α) : Bool :=
  msg.getLast? = some newline

/-- The buffering of `write_log`. -/
def Output.put (out : Output) (w : Part Char) : Output :=
  if terminated '\n' w.text then
    let content := w.text.dropLast
    let parts := if content = [] then out.parts else out.parts ++ [⟨w.origin,content⟩]
    ⟨[],out.lines ++ [⟨w.origin,parts⟩]⟩
  else { out with parts := out.parts ++ [w] }

/-- The thread's entry of `THREAD_BUNDLE_HASH_MAP` and its output. -/
structure Thread where
  bundle : Option String
  out : Output

def Thread.new : Thread := ⟨none,⟨[],[]⟩⟩

/-- `PyUnicode_AsUTF8`: a string with a lone surrogate has no UTF-8 form. -/
def asUtf8 : List CodePoint → Option (List Char)
  | [] => some []
  | .char c :: rest => (asUtf8 rest).map (c :: ·)
  | .surrogate _ :: _ => none

def writeLog (t : Thread) (w : Write) : Thread :=
  let bundleHash := t.bundle.getD "unknown"
  match asUtf8 w.msg with
  | none => t
  | some msg => { t with out := t.out.put ⟨⟨bundleHash,w.stream⟩,msg⟩ }

/-- The guard sets the bundle of the thread, and clears it when it is dropped. -/
def runCall (t : Thread) (call : Call) : Thread :=
  let entered : Thread := { t with bundle := some call.bundleHash }
  { call.writes.foldl writeLog entered with bundle := none }

def run (calls : List Call) : Thread := calls.foldl runCall .new

def written (calls : List Call) : List (Part CodePoint) :=
  calls.flatMap fun call => call.writes.map fun w => ⟨⟨call.bundleHash,w.stream⟩,w.msg⟩

def decoded (w : Part CodePoint) : Option (Part Char) := (asUtf8 w.text).map (⟨w.origin,·⟩)

/-- The writes that reach the line buffer. -/
def heard (calls : List Call) : List (Part Char) := (written calls).filterMap decoded

theorem asUtf8_eq_some {msg : List CodePoint} {text : List Char} :
    asUtf8 msg = some text ↔ msg = text.map .char := by
  induction msg generalizing text with
  | nil => cases text <;> simp [asUtf8]
  | cons c msg ih =>
    cases c with
    | char c => cases text <;> simp [asUtf8,ih,and_comm]
    | surrogate n => cases text <;> simp [asUtf8]

theorem decoded_eq_some {w : Part CodePoint} {part : Part Char} :
    decoded w = some part ↔ w.origin = part.origin ∧ w.text = part.text.map .char := by
  obtain ⟨origin,text⟩ := part
  simp [decoded,asUtf8_eq_some,and_comm]

theorem foldl_writeLog (writes : List Write) (bundleHash : String) (out : Output) :
    writes.foldl writeLog ⟨some bundleHash,out⟩ =
      ⟨some bundleHash,((writes.map fun w => (⟨⟨bundleHash,w.stream⟩,w.msg⟩ :
        Part CodePoint)).filterMap decoded).foldl Output.put out⟩ := by
  induction writes generalizing out with
  | nil => rfl
  | cons w writes ih =>
    simp only [List.foldl_cons,List.map_cons]
    cases hmsg : asUtf8 w.msg with
    | none =>
      rw [List.filterMap_cons_none (by simp [decoded,hmsg]),← ih]
      simp [writeLog,hmsg]
    | some msg =>
      rw [List.filterMap_cons_some (b := ⟨⟨bundleHash,w.stream⟩,msg⟩) (by simp [decoded,hmsg]),
        List.foldl_cons,← ih]
      simp [writeLog,hmsg]

def outputOf (ws : List (Part Char)) : Output := ws.foldl .put ⟨[],[]⟩

/-- The guards make every write carry the bundle of its call. -/
theorem run_out (calls : List Call) : (run calls).out = outputOf (heard calls) := by
  have hrun (t : Thread) : (calls.foldl runCall t).out = (heard calls).foldl .put t.out := by
    induction calls generalizing t with
    | nil => rfl
    | cons call calls ih =>
      simp only [List.foldl_cons,ih,heard,written,List.flatMap_cons,List.filterMap_append,
        List.foldl_append,runCall,foldl_writeLog]
  exact hrun .new

/-- All that `origin` has written, up to the end of its last newline-terminated write. -/
def upToLastLine {α : Type} [DecidableEq α] (newline : α) (origin : Origin)
    (ws : List (Part α)) : List α :=
  (((ws.filter (·.origin = origin)).map (·.text)).rdropWhile
    fun text => !terminated newline text).flatten

/-- The lines of `origin`, each followed by a newline. -/
def emitted (origin : Origin) (lines : List Line) : List Char :=
  (lines.filter (·.origin = origin)).flatMap fun line => line.text ++ ['\n']

/-- Lines hold text of their own origin only, and all of it that belongs to whole lines. -/
def Attributed (calls : List Call) : Prop :=
  (∀ line ∈ (run calls).out.lines, ∀ part ∈ line.parts, part.text ≠ [] →
    part.origin = line.origin) ∧
  ∀ origin, (emitted origin (run calls).out.lines).map .char =
    upToLastLine (.char '\n') origin (written calls)

/-- The next newline after some unterminated text comes from the origin of that text. -/
def Separated (ws : List (Part Char)) : Prop :=
  ∀ before between after w last, ws = before ++ w :: (between ++ last :: after) → w.text ≠ [] →
    (∀ u ∈ w :: between, terminated '\n' u.text = false) → terminated '\n' last.text = true →
    last.origin = w.origin

/-- No origin writes a lone surrogate before the end of its last newline-terminated write. -/
def Encodable (ws : List (Part CodePoint)) : Prop :=
  ∀ origin n, .surrogate n ∉ upToLastLine (.char '\n') origin ws

theorem surrogate_of_decoded {w : Part CodePoint} (h : decoded w = none) :
    ∃ n, .surrogate n ∈ w.text := by
  have hnone : asUtf8 w.text = none := by simpa [decoded] using h
  generalize w.text = msg at hnone
  induction msg with
  | nil => cases hnone
  | cons c msg ih =>
    cases c with
    | char c =>
      obtain ⟨n,hn⟩ := ih (by simpa [asUtf8] using hnone)
      exact ⟨n,List.mem_cons_of_mem _ hn⟩
    | surrogate n => exact ⟨n,List.mem_cons_self⟩

theorem terminated_char {msg : List CodePoint} {text : List Char} (h : msg = text.map .char) :
    terminated (.char '\n') msg = terminated '\n' text := by
  simp [terminated,h]

section Texts

variable {α : Type}

def textOf (origin : Origin) (ws : List (Part α)) : List α :=
  (ws.filter (·.origin = origin)).flatMap (·.text)

theorem textOf_append (origin : Origin) (ws us : List (Part α)) :
    textOf origin (ws ++ us) = textOf origin ws ++ textOf origin us := by
  simp [textOf]

theorem textOf_singleton (origin : Origin) (w : Part α) :
    textOf origin [w] = if w.origin = origin then w.text else [] := by
  by_cases h : w.origin = origin <;> simp [textOf,h]

theorem upToLastLine_concat [DecidableEq α] (newline : α) (origin : Origin) (ws : List (Part α))
    (w : Part α) : upToLastLine newline origin (ws ++ [w]) =
      if w.origin = origin ∧ terminated newline w.text = true then textOf origin (ws ++ [w])
      else upToLastLine newline origin ws := by
  rw [upToLastLine,List.filter_append,List.map_append,textOf]
  by_cases horigin : w.origin = origin
  · cases hw : terminated newline w.text with
    | true => simp [horigin,hw,List.flatMap_def]
    | false => simp [horigin,hw,upToLastLine]
  · simp [horigin,upToLastLine]

end Texts

section Writes

variable {ws : List (Part Char)} {w : Part Char}

theorem outputOf_concat : outputOf (ws ++ [w]) = (outputOf ws).put w := by
  simp [outputOf]

def completed (ws : List (Part Char)) (w : Part Char) : Line :=
  ⟨w.origin,(ws.rtakeWhile fun u => !terminated '\n' u.text) ++
    if w.text.dropLast = [] then [] else [⟨w.origin,w.text.dropLast⟩]⟩

theorem outputOf_parts (ws : List (Part Char)) :
    (outputOf ws).parts = ws.rtakeWhile fun u => !terminated '\n' u.text := by
  induction ws using List.reverseRecOn with
  | nil => rfl
  | append_singleton ws w ih =>
    rw [outputOf_concat,Output.put,List.rtakeWhile_concat]
    cases terminated '\n' w.text with
    | true => rfl
    | false => simp [ih]

theorem outputOf_lines (ws : List (Part Char)) (w : Part Char) : (outputOf (ws ++ [w])).lines =
    (outputOf ws).lines ++ if terminated '\n' w.text then [completed ws w] else [] := by
  rw [outputOf_concat,Output.put,completed,← outputOf_parts]
  cases terminated '\n' w.text with
  | true => by_cases hc : w.text.dropLast = [] <;> simp [hc]
  | false => simp

theorem mem_lines {line : Line} : line ∈ (outputOf ws).lines ↔
    ∃ before last after, ws = before ++ last :: after ∧ terminated '\n' last.text = true ∧
      line = completed before last := by
  induction ws using List.reverseRecOn with
  | nil => simp [outputOf]
  | append_singleton ws w ih =>
    rw [outputOf_lines,List.mem_append,ih]
    constructor
    · rintro (⟨before,last,after,rfl,hlast,rfl⟩ | hline)
      · exact ⟨before,last,after ++ [w],by simp,hlast,rfl⟩
      · cases hw : terminated '\n' w.text with
        | true =>
          rw [hw] at hline
          exact ⟨ws,w,[],rfl,hw,by simpa using hline⟩
        | false => simp [hw] at hline
    · rintro ⟨before,last,after,heq,hlast,rfl⟩
      cases after using List.reverseRecOn with
      | nil =>
        obtain ⟨rfl,hw⟩ := List.append_inj' heq rfl
        cases hw
        simp [hlast]
      | append_singleton after u =>
        obtain ⟨rfl,hw⟩ : ws = before ++ last :: after ∧ [w] = [u] :=
          List.append_inj' (by simpa using heq) rfl
        exact .inl ⟨before,last,after,rfl,hlast,rfl⟩

theorem mem_rtakeWhile {u : Part Char} : u ∈ (ws.rtakeWhile fun v => !terminated '\n' v.text) ↔
    ∃ before between, ws = before ++ u :: between ∧
      ∀ v ∈ u :: between, terminated '\n' v.text = false := by
  constructor
  · intro hu
    obtain ⟨front,between,hsplit⟩ := List.append_of_mem hu
    refine ⟨(ws.rdropWhile fun v => !terminated '\n' v.text) ++ front,between,?_,fun v hv => ?_⟩
    · rw [List.append_assoc,← hsplit,List.rdropWhile_append_rtakeWhile]
    · have hmem : v ∈ (ws.rtakeWhile fun v => !terminated '\n' v.text) := by
        rw [hsplit]
        exact List.mem_append_right _ hv
      simpa using List.mem_rtakeWhile_imp hmem
  · rintro ⟨before,between,rfl,hall⟩
    have hpos : ∀ v ∈ (u :: between).reverse, (!terminated '\n' v.text) = true := fun v hv => by
      simp [hall v (List.mem_reverse.mp hv)]
    rw [List.rtakeWhile,List.reverse_append,List.takeWhile_append_of_pos hpos]
    simp

theorem separated_iff : Separated ws ↔ ∀ line ∈ (outputOf ws).lines, ∀ part ∈ line.parts,
    part.text ≠ [] → part.origin = line.origin := by
  constructor
  · intro hsep line hline part hpart hne
    obtain ⟨before,last,after,rfl,hlast,rfl⟩ := mem_lines.mp hline
    rcases List.mem_append.mp hpart with hold | hown
    · obtain ⟨front,between,rfl,hall⟩ := mem_rtakeWhile.mp hold
      exact (hsep front between after part last (by simp) hne hall hlast).symm
    · split at hown
      · cases hown
      · rw [List.mem_singleton.mp hown]
        rfl
  · intro hlines before between after w last heq hne hall hlast
    have hline : completed (before ++ w :: between) last ∈ (outputOf ws).lines :=
      mem_lines.mpr ⟨before ++ w :: between,last,after,by simp [heq],hlast,rfl⟩
    have hpart : w ∈ (completed (before ++ w :: between) last).parts :=
      List.mem_append_left _ (mem_rtakeWhile.mpr ⟨before,between,rfl,hall⟩)
    exact (hlines _ hline w hpart hne).symm

theorem Separated.init (h : Separated (ws ++ [w])) : Separated ws := by
  intro before between after u last heq
  exact h before between (after ++ [w]) u last (by simp [heq])

theorem textOf_same {origin : Origin} (h : ∀ part ∈ ws, part.text ≠ [] → part.origin = origin) :
    ws.flatMap (·.text) = textOf origin ws := by
  induction ws with
  | nil => rfl
  | cons w ws ih =>
    rw [List.flatMap_cons,ih fun part hpart => h part (List.mem_cons_of_mem _ hpart)]
    rw [← List.singleton_append,textOf_append,textOf_singleton]
    by_cases hw : w.origin = origin
    · simp [hw]
    · have hempty : w.text = [] := by
        by_contra hne
        exact hw (h w List.mem_cons_self hne)
      simp [hempty]

theorem textOf_other {origin other : Origin} (hne : other ≠ origin)
    (h : ∀ part ∈ ws, part.text ≠ [] → part.origin = origin) : textOf other ws = [] := by
  rw [textOf,List.flatMap_eq_nil_iff]
  intro part hpart
  obtain ⟨hmem,horigin⟩ := List.mem_filter.mp hpart
  by_contra htext
  exact hne ((of_decide_eq_true horigin).symm.trans (h part hmem htext))

theorem emitted_append (origin : Origin) (lines lines' : List Line) :
    emitted origin (lines ++ lines') = emitted origin lines ++ emitted origin lines' := by
  simp [emitted]

theorem emitted_singleton (origin : Origin) (line : Line) :
    emitted origin [line] = if line.origin = origin then line.text ++ ['\n'] else [] := by
  by_cases h : line.origin = origin <;> simp [emitted,h]

theorem dropLast_terminated {text : List Char} (h : terminated '\n' text = true) :
    text.dropLast ++ ['\n'] = text := by
  have hlast : text.getLast? = some '\n' := of_decide_eq_true h
  rw [List.dropLast_append_getLast? _ hlast]

theorem completed_text (ws : List (Part Char)) (w : Part Char) : (completed ws w).text =
    ((ws.rtakeWhile fun u => !terminated '\n' u.text).flatMap (·.text)) ++ w.text.dropLast := by
  rw [Line.text,completed,List.flatMap_append]
  split
  · rename_i hc
    simp [hc]
  · simp

/-- Nothing is lost and nothing is moved: lines and buffer hold the text of each origin. -/
theorem emitted_buffered (h : Separated ws) (origin : Origin) :
    emitted origin (outputOf ws).lines ++ textOf origin (outputOf ws).parts = textOf origin ws := by
  induction ws using List.reverseRecOn with
  | nil => rfl
  | append_singleton ws w ih =>
    have hbefore := ih h.init
    rw [textOf_append,textOf_singleton,outputOf_lines,outputOf_parts,List.rtakeWhile_concat]
    rw [outputOf_parts] at hbefore
    cases hw : terminated '\n' w.text with
    | false =>
      rw [← hbefore]
      simp [textOf_append,textOf_singleton]
    | true =>
      have hown : ∀ part ∈ (ws.rtakeWhile fun u => !terminated '\n' u.text), part.text ≠ [] →
          part.origin = w.origin := by
        intro part hpart hne
        exact separated_iff.mp h (completed ws w)
          (mem_lines.mpr ⟨ws,w,[],rfl,hw,rfl⟩) part (List.mem_append_left _ hpart) hne
      simp only [if_true,Bool.not_true,Bool.false_eq_true,if_false]
      rw [emitted_append,emitted_singleton]
      by_cases horigin : w.origin = origin
      · subst horigin
        have hline : (completed ws w).origin = w.origin := rfl
        have htext : (completed ws w).text ++ ['\n'] =
            textOf w.origin (ws.rtakeWhile fun u => !terminated '\n' u.text) ++ w.text := by
          rw [completed_text,textOf_same hown,List.append_assoc,dropLast_terminated hw]
        rw [if_pos rfl,if_pos hline,htext,← hbefore]
        simp [textOf]
      · have hline : (completed ws w).origin ≠ origin := horigin
        rw [if_neg horigin,if_neg hline,← hbefore,textOf_other (Ne.symm horigin) hown]
        simp [textOf]

theorem emitted_eq (h : Separated ws) (origin : Origin) :
    emitted origin (outputOf ws).lines = upToLastLine '\n' origin ws := by
  induction ws using List.reverseRecOn with
  | nil => rfl
  | append_singleton ws w ih =>
    rw [upToLastLine_concat]
    split
    · rename_i hline
      have hall := emitted_buffered h origin
      rw [outputOf_parts,List.rtakeWhile_concat_neg _ _ _ (by simp [hline.2])] at hall
      simpa [textOf] using hall
    · rename_i hline
      rw [outputOf_lines,emitted_append,ih h.init]
      cases hw : terminated '\n' w.text with
      | false => simp [emitted]
      | true =>
        have hother : (completed ws w).origin ≠ origin := fun horigin => hline ⟨horigin,hw⟩
        rw [if_pos rfl,emitted_singleton,if_neg hother,List.append_nil]

end Writes

section Decoding

variable {ws : List (Part CodePoint)} {origin : Origin}

theorem textOf_filterMap_decoded (h : ∀ n, .surrogate n ∉ textOf origin ws) :
    (textOf origin (ws.filterMap decoded)).map .char = textOf origin ws := by
  induction ws with
  | nil => rfl
  | cons w ws ih =>
    rw [← List.singleton_append,textOf_append,textOf_singleton] at h ⊢
    have hrest := ih fun n hn => h n (List.mem_append_right _ hn)
    rw [List.filterMap_append,textOf_append,List.map_append,hrest]
    congr 1
    cases hw : decoded w with
    | some part =>
      obtain ⟨horigin,htext⟩ := decoded_eq_some.mp hw
      rw [List.filterMap_cons_some hw,List.filterMap_nil,textOf_singleton,horigin,htext]
      split <;> rfl
    | none =>
      rw [List.filterMap_cons_none hw,List.filterMap_nil]
      split
      · rename_i horigin
        obtain ⟨n,hn⟩ := surrogate_of_decoded hw
        exact absurd (List.mem_append_left _ (by simpa [horigin] using hn)) (h n)
      · rfl

theorem upToLastLine_filterMap_decoded
    (h : ∀ n, .surrogate n ∉ upToLastLine (.char '\n') origin ws) :
    (upToLastLine '\n' origin (ws.filterMap decoded)).map .char =
      upToLastLine (.char '\n') origin ws := by
  induction ws using List.reverseRecOn with
  | nil => rfl
  | append_singleton ws w ih =>
    rw [upToLastLine_concat] at h ⊢
    split at h
    · -- the last write ends a line, so that all texts so far have to be decoded
      rename_i hline
      rw [if_pos hline,← textOf_filterMap_decoded h]
      cases hw : decoded w with
      | none =>
        obtain ⟨n,hn⟩ := surrogate_of_decoded hw
        rw [textOf_append,textOf_singleton,if_pos hline.1] at h
        exact absurd (List.mem_append_right _ hn) (h n)
      | some part =>
        obtain ⟨horigin,htext⟩ := decoded_eq_some.mp hw
        rw [List.filterMap_append,List.filterMap_cons_some hw,List.filterMap_nil,
          upToLastLine_concat,if_pos ⟨horigin ▸ hline.1,terminated_char htext ▸ hline.2⟩]
    · rename_i hline
      rw [if_neg hline,← ih h,List.filterMap_append]
      cases hw : decoded w with
      | none => simp [hw]
      | some part =>
        obtain ⟨horigin,htext⟩ := decoded_eq_some.mp hw
        rw [List.filterMap_cons_some hw,List.filterMap_nil,upToLastLine_concat,if_neg]
        rw [← horigin,← terminated_char htext]
        exact hline

end Decoding

/-- Lines are attributed correctly exactly if every unterminated text is followed by the
next newline of its own bundle and stream and no text of a whole line lacks a UTF-8 form. -/
theorem attributed_iff (calls : List Call) :
    Attributed calls ↔ Separated (heard calls) ∧ Encodable (written calls) := by
  rw [Attributed,run_out,separated_iff]
  constructor
  · rintro ⟨hown,hall⟩
    refine ⟨hown,fun origin n hn => ?_⟩
    rw [← hall origin] at hn
    simp at hn
  · rintro ⟨hown,hchars⟩
    refine ⟨hown,fun origin => ?_⟩
    rw [emitted_eq (separated_iff.mpr hown),heard,upToLastLine_filterMap_decoded (hchars origin)]

/-- A bundle leaves a line unterminated, and the next bundle on the thread ends it. -/
def mixedCalls : List Call :=
  [⟨"first",[⟨.stdout,"secret".toList.map .char,by decide⟩]⟩,
    ⟨"second",[⟨.stdout,[.char '\n'],by decide⟩]⟩]

theorem mixedCalls_not_attributed : ¬ Attributed mixedCalls := by
  intro h
  have hline : (⟨⟨"second",.stdout⟩,[⟨⟨"first",.stdout⟩,"secret".toList⟩]⟩ : Line) ∈
      (run mixedCalls).out.lines := by decide
  exact absurd (h.1 _ hline _ (List.mem_singleton_self _) (by decide)) (by decide)

-- of `print('a\udc80')` only an empty line is left
example : (run [⟨"first",[⟨.stdout,[.char 'a',.surrogate 1152],by decide⟩,
    ⟨.stdout,[.char '\n'],by decide⟩]⟩]).out.lines = [⟨⟨"first",.stdout⟩,[]⟩] := by
  decide

end BundleLogging
end JobControllerClient
