import Mathlib.Data.List.Infix

/-!
# Event streams

A text of lines in blocks. A blank line ends a block, and a block that holds data is handed
on as a message with the last id the reader has met. The reader takes one character at a
time, so that nothing depends on how a stream is cut into pieces or where it breaks off.
-/

namespace QuicSql.Lib.EventStream

structure Message where
  type : List Char
  data : List Char
  lastId : List Char
deriving DecidableEq, Repr

/-- `id` is what the next blank line makes the last id. -/
structure Reader where
  line : List Char
  afterCr : Bool
  type : List Char
  data : List (List Char)
  id : List Char
  lastId : List Char
  messages : List Message
deriving DecidableEq, Repr

namespace Reader

/-- At the start of a stream, with what came over the streams before it. -/
def start (lastId : List Char) (messages : List Message) : Reader :=
  ⟨[], false, [], [], lastId, lastId, messages⟩

def dispatch (r : Reader) : Reader :=
  { r with
    type := []
    data := []
    lastId := r.id
    messages := if r.data = [] then r.messages else r.messages ++ [⟨r.type, ['\n'].intercalate r.data, r.id⟩] }

/-- Other names are ignored. -/
def field (r : Reader) (name value : List Char) : Reader :=
  if name = "event".toList then { r with type := value }
  else if name = "data".toList then { r with data := r.data ++ [value] }
  else if name = "id".toList then if '\x00' ∈ value then r else { r with id := value }
  else r

/-- One space after the colon does not count. -/
def dropSpace : List Char → List Char
  | ' ' :: value => value
  | value => value

/-- A line that starts with a colon is a comment. -/
def endLine (r : Reader) : Reader :=
  match r.line with
  | [] => r.dispatch
  | ':' :: _ => { r with line := [] }
  | line =>
    { r with line := [] }.field (line.takeWhile (· ≠ ':')) (dropSpace ((line.dropWhile (· ≠ ':')).drop 1))

/-- A line ends with a line feed, a carriage return, or both. -/
def push (r : Reader) (c : Char) : Reader :=
  if c = '\n' then if r.afterCr then { r with afterCr := false } else r.endLine
  else if c = '\r' then { r.endLine with afterCr := true }
  else { r with line := r.line ++ [c], afterCr := false }

def read (r : Reader) (text : List Char) : Reader := text.foldl push r

theorem read_append (r : Reader) (a b : List Char) : r.read (a ++ b) = (r.read a).read b := List.foldl_append

end Reader

/-! ## Blocks -/

inductive Block where
  | comment (text : List Char)
  | message (id : Option (List Char)) (type data : List Char)
deriving DecidableEq, Repr

def fieldLine (name value : List Char) : List Char := name ++ ':' :: ' ' :: value

namespace Block

def lines : Block → List (List Char)
  | comment text => [fieldLine [] text]
  | message id type data =>
    (id.map (fieldLine "id".toList)).toList ++ [fieldLine "event".toList type, fieldLine "data".toList data]

def text (b : Block) : List Char := b.lines.flatMap (· ++ ['\n']) ++ ['\n']

def lastId (before : List Char) : Block → List Char
  | comment _ => before
  | message id _ _ => id.getD before

def messages (before : List Char) : Block → List Message
  | comment _ => []
  | message id type data => [⟨type, data, id.getD before⟩]

end Block

def OneLine (t : List Char) : Prop := '\n' ∉ t ∧ '\r' ∉ t

instance (t : List Char) : Decidable (OneLine t) := inferInstanceAs (Decidable (_ ∧ _))

theorem oneLine_append {a b : List Char} (ha : OneLine a) (hb : OneLine b) : OneLine (a ++ b) := by
  simp only [OneLine, List.mem_append, not_or]
  exact ⟨⟨ha.1, hb.1⟩, ha.2, hb.2⟩

theorem oneLine_cons {c : Char} (hc : OneLine [c]) {t : List Char} (h : OneLine t) : OneLine (c :: t) :=
  oneLine_append hc h

/-- Nothing in the block can be taken for the end of a line, and an id can be used. -/
structure Block.Plain (b : Block) : Prop where
  lines : ∀ l ∈ b.lines, OneLine l
  id : ∀ id type data, b = message (some id) type data → '\x00' ∉ id

def texts (blocks : List Block) : List Char := blocks.flatMap Block.text

def lastIds (before : List Char) (blocks : List Block) : List Char := blocks.foldl Block.lastId before

def shown (before : List Char) : List Block → List Message
  | [] => []
  | b :: rest => b.messages before ++ shown (b.lastId before) rest

theorem shown_append (before : List Char) (a b : List Block) :
    shown before (a ++ b) = shown before a ++ shown (lastIds before a) b := by
  induction a generalizing before with
  | nil => rfl
  | cons x a ih => rw [List.cons_append, shown, ih, shown, List.append_assoc]; rfl

/-! ## Reading lines -/

namespace Reader

variable {r : Reader} {l p : List Char}

theorem read_chars (hOne : OneLine l) (hCr : r.afterCr = false) : r.read l = { r with line := r.line ++ l } := by
  induction l generalizing r with
  | nil =>
    change r = _
    rw [List.append_nil]
  | cons c l ih =>
    obtain ⟨hLf, hNoCr⟩ := hOne
    have hPush : r.push c = { r with line := r.line ++ [c] } := by
      have hc : c ≠ '\n' ∧ c ≠ '\r' := by
        constructor
        · rintro rfl
          exact hLf List.mem_cons_self
        · rintro rfl
          exact hNoCr List.mem_cons_self
      rw [push, if_neg hc.1, if_neg hc.2, hCr]
    have hRest : OneLine l := ⟨fun h => hLf (List.mem_cons_of_mem _ h), fun h => hNoCr (List.mem_cons_of_mem _ h)⟩
    change (r.push c).read l = _
    rw [hPush]
    refine (ih (r := { r with line := r.line ++ [c] }) hRest hCr).trans ?_
    rw [List.append_assoc]
    rfl

structure Between (r : Reader) : Prop where
  line : r.line = []
  afterCr : r.afterCr = false

theorem read_line (hAt : r.Between) (hOne : OneLine l) :
    r.read (l ++ ['\n']) = { r with line := l }.endLine := by
  rw [read_append, read_chars hOne hAt.afterCr, hAt.line, List.nil_append]
  change push _ '\n' = _
  rw [push, if_pos rfl, if_neg]
  rw [hAt.afterCr]
  exact Bool.false_ne_true

structure Silent (r r' : Reader) : Prop where
  lastId : r'.lastId = r.lastId
  messages : r'.messages = r.messages

theorem field_line (r : Reader) (name value : List Char) : (r.field name value).line = r.line := by
  unfold field
  split_ifs <;> rfl

theorem field_afterCr (r : Reader) (name value : List Char) : (r.field name value).afterCr = r.afterCr := by
  unfold field
  split_ifs <;> rfl

theorem field_silent (r : Reader) (name value : List Char) : Silent r (r.field name value) := by
  unfold field
  split_ifs <;> exact ⟨rfl, rfl⟩

theorem endLine_silent (hLine : r.line ≠ []) : Silent r r.endLine ∧ (r.afterCr = false → r.endLine.Between) := by
  unfold endLine
  split
  · contradiction
  · exact ⟨⟨rfl, rfl⟩, fun hCr => ⟨rfl, hCr⟩⟩
  · have hSilent := field_silent { r with line := [] } (r.line.takeWhile (· ≠ ':'))
      (dropSpace ((r.line.dropWhile (· ≠ ':')).drop 1))
    refine ⟨⟨hSilent.lastId, hSilent.messages⟩, fun hCr => ⟨field_line .., ?_⟩⟩
    rw [field_afterCr]
    exact hCr

theorem prefix_append_cases {a b : List Char} (h : p <+: a ++ b) : p <+: a ∨ ∃ q, p = a ++ q ∧ q <+: b := by
  rcases Nat.le_total p.length a.length with hLe | hLe
  · exact .inl (List.prefix_of_prefix_length_le h (List.prefix_append a b) hLe)
  · obtain ⟨q, rfl⟩ := List.prefix_of_prefix_length_le (List.prefix_append a b) h hLe
    exact .inr ⟨q, rfl, (List.prefix_append_right_inj a).mp h⟩

theorem silent_of_prefix {lines : List (List Char)} (hLines : ∀ l ∈ lines, OneLine l ∧ l ≠ []) (hAt : r.Between)
    (hp : p <+: lines.flatMap (· ++ ['\n'])) : Silent r (r.read p) := by
  induction lines generalizing r p with
  | nil =>
    cases List.prefix_nil.mp hp
    exact ⟨rfl, rfl⟩
  | cons l lines ih =>
    obtain ⟨hOne, hNe⟩ := hLines l List.mem_cons_self
    rw [List.flatMap_cons, List.append_assoc] at hp
    rcases prefix_append_cases hp with hp | ⟨q, rfl, hq⟩
    · have hOne' : OneLine p := ⟨fun h => hOne.1 (hp.subset h), fun h => hOne.2 (hp.subset h)⟩
      rw [read_chars hOne' hAt.afterCr]
      exact ⟨rfl, rfl⟩
    · rcases prefix_append_cases hq with hEnd | ⟨q', rfl, hq'⟩
      · rcases List.prefix_cons_iff.mp hEnd with rfl | ⟨q', rfl, hq'⟩
        · rw [List.append_nil, read_chars hOne hAt.afterCr]
          exact ⟨rfl, rfl⟩
        · cases List.prefix_nil.mp hq'
          rw [read_line hAt hOne]
          obtain ⟨hSilent, -⟩ := endLine_silent (r := { r with line := l }) hNe
          exact ⟨hSilent.lastId, hSilent.messages⟩
      · obtain ⟨hSilent, hNext⟩ := endLine_silent (r := { r with line := l }) hNe
        rw [← List.append_assoc, read_append, read_line hAt hOne]
        have hRest := ih (fun l' hl' => hLines l' (List.mem_cons_of_mem _ hl')) (hNext hAt.afterCr) hq'
        exact ⟨hRest.lastId.trans hSilent.lastId, hRest.messages.trans hSilent.messages⟩

/-! ## Reading blocks -/

theorem takeWhile_fieldLine {name : List Char} (hName : ':' ∉ name) (value : List Char) :
    (fieldLine name value).takeWhile (· ≠ ':') = name := by
  rw [fieldLine, List.takeWhile_append_of_pos]
  · simp
  · intro c hc
    simpa using fun h : c = ':' => hName (h ▸ hc)

theorem dropWhile_fieldLine {name : List Char} (hName : ':' ∉ name) (value : List Char) :
    (fieldLine name value).dropWhile (· ≠ ':') = ':' :: ' ' :: value := by
  rw [fieldLine, List.dropWhile_append_of_pos]
  · simp
  · intro c hc
    simpa using fun h : c = ':' => hName (h ▸ hc)

theorem endLine_field {name value : List Char} (hNe : name ≠ []) (hName : ':' ∉ name) (hAt : r.Between) :
    { r with line := fieldLine name value }.endLine = r.field name value := by
  have hLine : { r with line := [] } = r := by
    rw [← hAt.line]
  obtain ⟨c, name, rfl⟩ := List.exists_cons_of_ne_nil hNe
  have hColon : c ≠ ':' := fun h => hName (h ▸ List.mem_cons_self)
  have hTake := takeWhile_fieldLine hName value
  have hDrop := dropWhile_fieldLine hName value
  rw [fieldLine, List.cons_append] at hTake hDrop ⊢
  unfold endLine
  split
  · rename_i hNil
    cases hNil
  · rename_i hCons
    exact absurd (List.cons.inj hCons).1 hColon
  · dsimp only
    rw [hTake, hDrop, hLine]
    rfl

theorem read_field {name value rest : List Char} (hNe : name ≠ []) (hName : ':' ∉ name) (hAt : r.Between)
    (hOne : OneLine (fieldLine name value)) :
    r.read (fieldLine name value ++ '\n' :: rest) = (r.field name value).read rest := by
  have hCut : fieldLine name value ++ '\n' :: rest = (fieldLine name value ++ ['\n']) ++ rest := by simp
  rw [hCut, read_append, read_line hAt hOne, endLine_field hNe hName hAt]

theorem start_between (id : List Char) (ms : List Message) : (start id ms).Between := ⟨rfl, rfl⟩

theorem read_block {b : Block} (hPlain : b.Plain) (before : List Char) (ms : List Message) :
    (start before ms).read b.text = start (b.lastId before) (ms ++ b.messages before) := by
  have hOne := hPlain.lines
  cases b with
  | comment text =>
    rw [Block.text, Block.lines, List.flatMap_singleton, read_append,
      read_line (start_between ..) (hOne _ List.mem_cons_self)]
    simp [endLine, fieldLine, start, read, push, dispatch, Block.lastId, Block.messages]
  | message id type data =>
    have hType : OneLine (fieldLine "event".toList type) := hOne _ (by simp [Block.lines])
    have hData : OneLine (fieldLine "data".toList data) := hOne _ (by simp [Block.lines])
    have hBody : ∀ r : Reader, r.Between → r.data = [] →
        r.read (fieldLine "event".toList type ++ '\n' :: (fieldLine "data".toList data ++ '\n' :: ['\n'])) =
          start r.id (r.messages ++ [⟨type, data, r.id⟩]) := by
      intro r hAt hNone
      have hNext : (r.field "event".toList type).Between :=
        ⟨(field_line ..).trans hAt.line, (field_afterCr ..).trans hAt.afterCr⟩
      rw [read_field (by decide) (by decide) hAt hType, read_field (by decide) (by decide) hNext hData]
      obtain ⟨hLine, hCr⟩ := hAt
      cases r
      cases hLine
      cases hCr
      cases hNone
      simp [field, read, push, endLine, dispatch, start, List.intercalate]
    cases id with
    | none =>
      have hText : (Block.message none type data).text =
          fieldLine "event".toList type ++ '\n' :: (fieldLine "data".toList data ++ '\n' :: ['\n']) := by
        simp [Block.text, Block.lines]
      rw [hText, hBody _ (start_between ..) rfl]
      rfl
    | some id =>
      have hText : (Block.message (some id) type data).text = fieldLine "id".toList id ++ '\n' ::
          (fieldLine "event".toList type ++ '\n' :: (fieldLine "data".toList data ++ '\n' :: ['\n'])) := by
        simp [Block.text, Block.lines]
      have hId : (start before ms).field "id".toList id = { start before ms with id := id } := by
        rw [field, if_neg (by decide), if_neg (by decide), if_pos rfl, if_neg (hPlain.id id type data rfl)]
      rw [hText, read_field (by decide) (by decide) (start_between ..) (hOne _ (by simp [Block.lines])), hId,
        hBody _ ⟨rfl, rfl⟩ rfl]
      rfl

theorem read_blocks {blocks : List Block} (hPlain : ∀ b ∈ blocks, b.Plain) (before : List Char) (ms : List Message) :
    (start before ms).read (texts blocks) = start (lastIds before blocks) (ms ++ shown before blocks) := by
  induction blocks generalizing before ms with
  | nil =>
    rw [shown, List.append_nil]
    rfl
  | cons b rest ih =>
    rw [texts, List.flatMap_cons, read_append, read_block (hPlain b List.mem_cons_self)]
    refine (ih (fun b' h => hPlain b' (List.mem_cons_of_mem _ h)) _ _).trans ?_
    rw [shown, List.append_assoc]
    rfl

theorem lines_ne_nil {b : Block} (h : l ∈ b.lines) : l ≠ [] := by
  cases b with
  | comment text =>
    cases List.mem_singleton.mp h
    exact List.cons_ne_nil _ _
  | message id type data =>
    rintro rfl
    simp [Block.lines, fieldLine] at h

/-- However far a stream of blocks was read, what was handed on are the messages of some of
them from the first on, and the last id is the one after these. -/
theorem read_prefix {blocks : List Block} (hPlain : ∀ b ∈ blocks, b.Plain) (before : List Char) (ms : List Message)
    (hp : p <+: texts blocks) :
    ∃ done rest, blocks = done ++ rest ∧ ((start before ms).read p).messages = ms ++ shown before done ∧
      ((start before ms).read p).lastId = lastIds before done := by
  induction blocks generalizing before ms p with
  | nil =>
    cases List.prefix_nil.mp hp
    exact ⟨[], [], rfl, (List.append_nil ms).symm, rfl⟩
  | cons b blocks ih =>
    have hHead := hPlain b List.mem_cons_self
    rw [texts, List.flatMap_cons] at hp
    rcases prefix_append_cases hp with hp | ⟨q, rfl, hq⟩
    · rcases prefix_append_cases hp with hp | ⟨q, rfl, hq⟩
      · -- The block's last line feed is missing.
        have hSilent := silent_of_prefix (fun l hl => ⟨hHead.lines l hl, lines_ne_nil hl⟩) (start_between before ms) hp
        exact ⟨[], b :: blocks, rfl, hSilent.messages.trans (List.append_nil ms).symm, hSilent.lastId⟩
      · rcases List.prefix_cons_iff.mp hq with rfl | ⟨q', rfl, hq'⟩
        · have hSilent := silent_of_prefix (fun l hl => ⟨hHead.lines l hl, lines_ne_nil hl⟩) (start_between before ms)
            List.prefix_rfl
          rw [List.append_nil]
          exact ⟨[], b :: blocks, rfl, hSilent.messages.trans (List.append_nil ms).symm, hSilent.lastId⟩
        · cases List.prefix_nil.mp hq'
          have hRead := read_block hHead before ms
          rw [Block.text] at hRead
          rw [hRead]
          exact ⟨[b], blocks, rfl, by rw [shown, shown, List.append_nil]; rfl, rfl⟩
    · obtain ⟨done, rest, rfl, hMessages, hLast⟩ :=
        ih (fun b' h => hPlain b' (List.mem_cons_of_mem _ h)) (b.lastId before) (ms ++ b.messages before) hq
      rw [read_append, read_block hHead]
      refine ⟨b :: done, rest, rfl, ?_, hLast⟩
      rw [hMessages, shown, List.append_assoc]

end Reader

end QuicSql.Lib.EventStream
