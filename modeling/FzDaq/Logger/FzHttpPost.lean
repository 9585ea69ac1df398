import Mathlib

/-!
# `FZHttpPost`

Lines of key-value pairs that are posted to a web server, as elements of a PHP array. Lines
are put into one POST up to a limit on its number of pairs.
-/

namespace FzDaq.Logger

/-- The characters that a C function finds in a string. -/
def cStr (s : String) : String := String.ofList (s.toList.takeWhile (· ≠ Char.ofNat 0))

/-- The pairs of one POST, names and contents. -/
abbrev Form := List (String × String)

/-- The pairs of one line, `p` and `v`. -/
abbrev Line := List (String × String)

/-- `par[line][p]`, for an array `par`. -/
def arrayElement (array : String) (line : Nat) (p : String) : String :=
  array ++ "[" ++ toString line ++ "][" ++ p ++ "]"

/-- The object, with the forms that it has sent. -/
structure FZHttpPost where
  formpost : Form := []
  fDBUserName : String := "SlowControls"
  fDBCategory : String := "SlowControls"
  fPHPArrayName : String := ""
  fPairsPerLine : Nat := 0
  fLineNumber : Nat := 0
  fPostPairs : Nat := 0
  sent : List Form := []
  deriving DecidableEq, Repr

namespace FZHttpPost

/-- The default, which nobody changes. -/
def fMaxPHP : Int := 1000

def fNHdrElements : Int := 2

def addKeyValuePair (post : FZHttpPost) (key value : String) : FZHttpPost :=
  { post with
    formpost := post.formpost ++ [(cStr key, cStr value)]
    fPostPairs := post.fPostPairs + 1 }

def setDBCategory (post : FZHttpPost) (a : String) : FZHttpPost := { post with fDBCategory := a }

def newPost (post : FZHttpPost) : FZHttpPost :=
  { post with formpost := [], fLineNumber := 0, fPairsPerLine := 0, fPostPairs := 0 }

def checkPHPLimit (post : FZHttpPost) : Bool :=
  decide ((post.fPostPairs : Int) + fNHdrElements > fMaxPHP - post.fPairsPerLine)

def sendPost (post : FZHttpPost) : FZHttpPost :=
  if post.fPostPairs = 0 then post
  else
    let post := post.addKeyValuePair "user" post.fDBUserName
    let post := post.addKeyValuePair "category" post.fDBCategory
    { post with
      sent := post.sent ++ [post.formpost]
      formpost := []
      fLineNumber := 0
      fPostPairs := 0 }

def newLine (post : FZHttpPost) : FZHttpPost :=
  if post.fPostPairs = 0 then post
  else
    let post := if post.fPairsPerLine = 0 then { post with fPairsPerLine := post.fPostPairs }
      else post
    if post.checkPHPLimit then post.sendPost
    else { post with fLineNumber := post.fLineNumber + 1 }

def addToPost (post : FZHttpPost) (p v : String) : FZHttpPost :=
  post.addKeyValuePair (arrayElement post.fPHPArrayName post.fLineNumber p) v

/-- The pairs of a line, and the new line behind it. -/
def addLine (post : FZHttpPost) (line : Line) : FZHttpPost :=
  (line.foldl (fun post pair => post.addToPost pair.1 pair.2) post).newLine

end FZHttpPost

/-! ## What the server finds -/

/-- The key `p` of an element `array[line][p]`. -/
def keyIn (array : String) (line : Nat) (name : String) : Option String :=
  let front := (array ++ "[" ++ toString line ++ "][").toList
  if front.isPrefixOf name.toList then
    some (String.ofList (name.toList.drop front.length).dropLast)
  else none

/-- The elements of the array under the number of a line. -/
def Form.lineAt (form : Form) (array : String) (line : Nat) : Line :=
  form.filterMap fun pair => (keyIn array line pair.1).map fun p => (p, pair.2)

/-- The lines of a form. -/
def Form.lines (form : Form) (array : String) : List Line :=
  ((List.range form.length).map (form.lineAt array)).filter (· ≠ [])

def Form.category (form : Form) : Option String := form.lookup "category"

/-! ## Strings -/

def NulFree (s : String) : Prop := Char.ofNat 0 ∉ s.toList

instance (s : String) : Decidable (NulFree s) := inferInstanceAs (Decidable (_ ∉ _))

theorem cStr_eq_self_iff (s : String) : cStr s = s ↔ NulFree s := by
  rw [cStr, ← String.toList_inj, String.toList_ofList, List.takeWhile_eq_self_iff]
  constructor
  · intro h hmem
    simpa using h _ hmem
  · intro h c hc
    have hne : c ≠ Char.ofNat 0 := fun heq => h (heq ▸ hc)
    simpa using hne

theorem nulFree_append {s t : String} : NulFree (s ++ t) ↔ NulFree s ∧ NulFree t := by
  simp [NulFree, String.toList_append]

theorem nulFree_toString (n : Nat) : NulFree (toString n) := by
  intro hmem
  rw [Nat.toString_eq_repr, Nat.repr_eq_ofList_toDigits, String.toList_ofList] at hmem
  have hdigit := Nat.isDigit_of_mem_toDigits (by decide) (by decide) hmem
  exact absurd hdigit (by decide)

theorem nulFree_arrayElement {array p : String} (harray : NulFree array) (hp : NulFree p)
    (line : Nat) : NulFree (arrayElement array line p) := by
  simp only [arrayElement, nulFree_append]
  exact ⟨⟨⟨⟨⟨harray, by decide⟩, nulFree_toString line⟩, by decide⟩, hp⟩, by decide⟩

theorem toDigits_append_inj {i j : Nat} {c : Char} {cs ds : List Char} (hc : c.isDigit = false)
    (h : Nat.toDigits 10 i ++ c :: cs = Nat.toDigits 10 j ++ c :: ds) : i = j := by
  have hdigits (n : Nat) (es : List Char) :
      (Nat.toDigits 10 n ++ c :: es).takeWhile Char.isDigit = Nat.toDigits 10 n := by
    rw [List.takeWhile_append_of_pos fun d hd =>
      Nat.isDigit_of_mem_toDigits (by decide) (by decide) hd]
    simp [hc]
  have hsame : Nat.toDigits 10 i = Nat.toDigits 10 j := by
    rw [← hdigits i cs, h, hdigits]
  rw [← Nat.ofDigitChars_ten_toDigits (n := i), hsame, Nat.ofDigitChars_ten_toDigits]

/-- The number of a line is read back from its keys. -/
theorem keyIn_arrayElement (array p : String) (i j : Nat) :
    keyIn array i (arrayElement array j p) = if i = j then some p else none := by
  have hfront (n : Nat) : (array ++ "[" ++ toString n ++ "][").toList =
      (array ++ "[").toList ++ (Nat.toDigits 10 n ++ [']', '[']) := by
    simp [String.toList_append]
  have hname : (arrayElement array j p).toList =
      (array ++ "[" ++ toString j ++ "][").toList ++ (p.toList ++ [']']) := by
    simp [arrayElement, String.toList_append]
  rw [keyIn, hname]
  by_cases hij : i = j
  · subst hij
    rw [if_pos rfl, if_pos (List.isPrefixOf_iff_prefix.2 (List.prefix_append ..)), List.drop_left]
    simp
  · rw [if_neg hij, if_neg]
    intro hprefix
    obtain ⟨rest, hrest⟩ := List.isPrefixOf_iff_prefix.1 hprefix
    simp only [hfront, List.append_assoc, List.append_cancel_left_eq] at hrest
    exact hij (toDigits_append_inj (by decide) hrest)

/-! ## Forms made of lines -/

/-- The pairs of lines that are numbered from `k` on. -/
def numbered (array : String) (k : Nat) : List Line → Form
  | [] => []
  | line :: lines =>
    line.map (fun pair => (arrayElement array k pair.1, pair.2)) ++ numbered array (k + 1) lines

theorem numbered_append (array : String) (k : Nat) (ls ls' : List Line) :
    numbered array k (ls ++ ls') = numbered array k ls ++ numbered array (k + ls.length) ls' := by
  induction ls generalizing k with
  | nil => rfl
  | cons line ls ih =>
    rw [List.cons_append, numbered, ih, numbered, List.append_assoc, List.length_cons,
      Nat.add_right_comm, Nat.add_assoc]

theorem length_numbered (array : String) (k : Nat) (ls : List Line) :
    (numbered array k ls).length = (ls.map List.length).sum := by
  induction ls generalizing k with
  | nil => rfl
  | cons line ls ih => simp [numbered, ih]

theorem lineAt_append (form form' : Form) (array : String) (i : Nat) :
    (form ++ form').lineAt array i = form.lineAt array i ++ Form.lineAt form' array i :=
  List.filterMap_append ..

theorem lineAt_pairs (array : String) (line : Line) (i k : Nat) :
    Form.lineAt (line.map fun pair => (arrayElement array k pair.1, pair.2)) array i =
      if i = k then line else [] := by
  induction line with
  | nil => simp [Form.lineAt]
  | cons pair line ih =>
    rw [Form.lineAt] at ih
    rw [Form.lineAt, List.map_cons, List.filterMap_cons, keyIn_arrayElement, ih]
    by_cases hik : i = k <;> simp [hik]

theorem lineAt_numbered (array : String) (ls : List Line) (i k : Nat) :
    (numbered array k ls).lineAt array i = if k ≤ i then ls[i - k]?.getD [] else [] := by
  induction ls generalizing k with
  | nil => simp [numbered, Form.lineAt]
  | cons line ls ih =>
    rw [numbered, lineAt_append, lineAt_pairs, ih]
    rcases Nat.lt_trichotomy i k with hlt | rfl | hgt
    · simp [Nat.ne_of_lt hlt, Nat.not_le_of_lt hlt, Nat.not_le_of_lt (Nat.lt_succ_of_lt hlt)]
    · simp
    · obtain ⟨m, rfl⟩ : ∃ m, i = k + 1 + m := ⟨i - (k + 1), by omega⟩
      rw [if_neg (by omega), if_pos (by omega), if_pos (by omega),
        show k + 1 + m - k = m + 1 by omega, show k + 1 + m - (k + 1) = m by omega]
      simp

/-- The form of some lines of a category. -/
def formOf (array user category : String) (ls : List Line) : Form :=
  numbered array 0 ls ++ [("user", cStr user), ("category", cStr category)]

variable {array user category : String} {ls : List Line}

theorem keyIn_header (array : String) {name : String} (hname : '[' ∉ name.toList) (i : Nat) :
    keyIn array i name = none := by
  rw [keyIn]
  refine if_neg fun hprefix => hname ?_
  refine (List.isPrefixOf_iff_prefix.1 hprefix).subset ?_
  simp [String.toList_append]

theorem lineAt_formOf (i : Nat) :
    (formOf array user category ls).lineAt array i = ls[i]?.getD [] := by
  have hheader : Form.lineAt [("user", cStr user), ("category", cStr category)] array i = [] := by
    have huser : keyIn array i "user" = none := keyIn_header array (by decide) i
    have hcategory : keyIn array i "category" = none := keyIn_header array (by decide) i
    simp [Form.lineAt, huser, hcategory]
  rw [formOf, lineAt_append, lineAt_numbered, hheader, List.append_nil, if_pos (Nat.zero_le _),
    Nat.sub_zero]

/-- Lines that are not empty are numbered without gaps. -/
theorem lineAt_formOf_ne_nil (hls : ∀ line ∈ ls, line ≠ []) (i : Nat) :
    (formOf array user category ls).lineAt array i ≠ [] ↔ i < ls.length := by
  rw [lineAt_formOf]
  constructor
  · intro hne
    by_contra hge
    exact hne (by rw [List.getElem?_eq_none (Nat.le_of_not_lt hge)]; rfl)
  · intro hi
    rw [List.getElem?_eq_getElem hi]
    exact hls _ (List.getElem_mem hi)

theorem length_formOf :
    (formOf array user category ls).length = (ls.map List.length).sum + 2 := by
  simp [formOf, length_numbered]

theorem length_le_sum_length {ls : List Line} (hls : ∀ line ∈ ls, line ≠ []) :
    ls.length ≤ (ls.map List.length).sum := by
  have hpos : ∀ n ∈ ls.map List.length, 1 ≤ n := by
    intro n hn
    obtain ⟨line, hline, rfl⟩ := List.mem_map.1 hn
    exact List.length_pos_iff.2 (hls line hline)
  simpa using List.card_nsmul_le_sum _ 1 hpos

theorem lines_formOf (hls : ∀ line ∈ ls, line ≠ []) :
    (formOf array user category ls).lines array = ls := by
  have hlen : ls.length ≤ (formOf array user category ls).length := by
    rw [length_formOf]
    exact Nat.le_add_right_of_le (length_le_sum_length hls)
  have hat (i : Nat) : (formOf array user category ls).lineAt array i = ls[i]?.getD [] :=
    lineAt_formOf i
  obtain ⟨m, hm⟩ := Nat.exists_eq_add_of_le hlen
  rw [Form.lines, hm, List.range_add, List.map_append, List.filter_append]
  have hfirst : (List.range ls.length).map ((formOf array user category ls).lineAt array) = ls := by
    refine List.ext_getElem (by simp) fun i hi hi' => ?_
    rw [List.getElem_map, List.getElem_range, hat, List.getElem?_eq_getElem hi', Option.getD_some]
  have hrest : ((List.range m).map fun x => ls.length + x).map
      ((formOf array user category ls).lineAt array) = List.replicate m [] := by
    refine List.ext_getElem (by simp) fun i hi hi' => ?_
    rw [List.getElem_map, List.getElem_map, List.getElem_range, hat,
      List.getElem?_eq_none (Nat.le_add_right ..), List.getElem_replicate]
    rfl
  rw [hfirst, hrest, List.filter_eq_self.2 fun line hline => by simpa using hls line hline]
  simp

theorem arrayElement_ne {name : String} (hname : '[' ∉ name.toList) (line : Nat) (p : String) :
    arrayElement array line p ≠ name := by
  rintro rfl
  exact hname (by simp [arrayElement, String.toList_append])

theorem category_formOf : (formOf array user category ls).category = some (cStr category) := by
  have hnames (k : Nat) : (numbered array k ls).lookup "category" = none := by
    rw [List.lookup_eq_none_iff]
    intro pair hpair
    induction ls generalizing k with
    | nil => cases hpair
    | cons line ls ih =>
      rcases List.mem_append.1 hpair with hpair | hpair
      · obtain ⟨old, -, rfl⟩ := List.mem_map.1 hpair
        simpa using (arrayElement_ne (by decide) k old.1).symm
      · exact ih (k + 1) hpair
  rw [Form.category, formOf, List.lookup_append, hnames]
  rfl

/-! ## Posting lines -/

/-- A line with the contents that a C function finds in it. -/
def cLine (line : Line) : Line := line.map fun pair => (pair.1, cStr pair.2)

namespace FZHttpPost

variable {post : FZHttpPost} {line : Line} {w : Nat}

/-- The object holds some lines of `w` pairs each, for which there is room, and for one more. -/
structure Holds (post : FZHttpPost) (w : Nat) (ls : List Line) : Prop where
  formpost : post.formpost = numbered post.fPHPArrayName 0 ls
  fLineNumber : post.fLineNumber = ls.length
  fPostPairs : post.fPostPairs = w * ls.length
  fPairsPerLine : post.fPairsPerLine = w ∨ post.fPairsPerLine = 0 ∧ ls = []
  room : w * ls.length + w + 2 ≤ 1000

/-- What the lines that have been posted and those that are held have in common. -/
structure SameMembers (post post' : FZHttpPost) : Prop where
  array : post'.fPHPArrayName = post.fPHPArrayName
  user : post'.fDBUserName = post.fDBUserName
  category : post'.fDBCategory = post.fDBCategory

theorem SameMembers.refl (post : FZHttpPost) : post.SameMembers post := ⟨rfl, rfl, rfl⟩

theorem SameMembers.trans {post' post'' : FZHttpPost} (h : post.SameMembers post')
    (h' : post'.SameMembers post'') : post.SameMembers post'' :=
  ⟨h'.array.trans h.array, h'.user.trans h.user, h'.category.trans h.category⟩

theorem sendPost_members (post : FZHttpPost) : post.SameMembers post.sendPost := by
  unfold sendPost
  split
  · exact .refl post
  · exact ⟨rfl, rfl, rfl⟩

theorem newLine_members (post : FZHttpPost) : post.SameMembers post.newLine := by
  have hset : post.SameMembers { post with fPairsPerLine := post.fPostPairs } := ⟨rfl, rfl, rfl⟩
  unfold newLine
  dsimp only
  split_ifs
  · exact .refl post
  · exact hset.trans (sendPost_members _)
  · exact ⟨rfl, rfl, rfl⟩
  · exact sendPost_members _
  · exact ⟨rfl, rfl, rfl⟩

theorem addLine_members (post : FZHttpPost) (line : Line) :
    post.SameMembers (post.addLine line) := by
  have hfold : post.SameMembers
      (line.foldl (fun post pair => post.addToPost pair.1 pair.2) post) := by
    induction line generalizing post with
    | nil => exact .refl post
    | cons pair line ih =>
      have hpair : post.SameMembers (post.addToPost pair.1 pair.2) := ⟨rfl, rfl, rfl⟩
      exact hpair.trans (ih _)
  exact hfold.trans (newLine_members _)

theorem foldl_addToPost (post : FZHttpPost) (harray : NulFree post.fPHPArrayName)
    (hnames : ∀ pair ∈ line, NulFree pair.1) :
    line.foldl (fun post pair => post.addToPost pair.1 pair.2) post =
      { post with
        formpost := post.formpost ++ (cLine line).map fun pair =>
          (arrayElement post.fPHPArrayName post.fLineNumber pair.1, pair.2)
        fPostPairs := post.fPostPairs + line.length } := by
  induction line generalizing post with
  | nil => simp [cLine]
  | cons pair line ih =>
    have hkey := (cStr_eq_self_iff _).2 (nulFree_arrayElement harray
      (hnames pair (List.mem_cons_self ..)) post.fLineNumber)
    rw [List.foldl_cons, ih (post.addToPost pair.1 pair.2) harray
      fun pair hpair => hnames pair (List.mem_cons_of_mem _ hpair)]
    simp only [addToPost, addKeyValuePair, hkey, cLine, List.map_cons, List.length_cons,
      List.append_assoc, List.singleton_append, Nat.add_assoc, Nat.add_comm 1]

/-- The form in which the object sends some lines. -/
def form (post : FZHttpPost) (ls : List Line) : Form :=
  formOf post.fPHPArrayName post.fDBUserName post.fDBCategory ls

theorem SameMembers.form {post' : FZHttpPost} (h : post.SameMembers post') (ls : List Line) :
    post'.form ls = post.form ls := by
  rw [FZHttpPost.form, h.array, h.user, h.category, FZHttpPost.form]

variable {ls : List Line}

theorem sendPost_of_ne (ls : List Line) (hform : post.formpost = numbered post.fPHPArrayName 0 ls)
    (hpairs : post.fPostPairs ≠ 0) :
    post.sendPost = { post with
      sent := post.sent ++ [post.form ls], formpost := [], fLineNumber := 0, fPostPairs := 0 } := by
  have huser : cStr "user" = "user" := (cStr_eq_self_iff _).2 (by decide)
  have hcategory : cStr "category" = "category" := (cStr_eq_self_iff _).2 (by decide)
  rw [sendPost, if_neg hpairs]
  simp only [addKeyValuePair, hform, huser, hcategory, form, formOf, List.append_assoc]
  rfl

/-- The first line of a POST sets the number of pairs for each line. -/
theorem newLine_of_width (hw : 0 < w) (hpairs : post.fPostPairs ≠ 0)
    (hwidth : post.fPairsPerLine = w ∨ post.fPairsPerLine = 0 ∧ post.fPostPairs = w) :
    post.newLine =
      if ({ post with fPairsPerLine := w } : FZHttpPost).checkPHPLimit then
        ({ post with fPairsPerLine := w } : FZHttpPost).sendPost
      else { post with fPairsPerLine := w, fLineNumber := post.fLineNumber + 1 } := by
  have hset : (if post.fPairsPerLine = 0 then { post with fPairsPerLine := post.fPostPairs }
      else post) = { post with fPairsPerLine := w } := by
    rcases hwidth with rfl | ⟨hzero, rfl⟩
    · rw [if_neg (Nat.ne_of_gt hw)]
    · rw [if_pos hzero]
  rw [newLine, if_neg hpairs, hset]

theorem Holds.addLine (h : post.Holds w ls) (hw : 0 < w) (hlen : line.length = w)
    (harray : NulFree post.fPHPArrayName) (hnames : ∀ pair ∈ line, NulFree pair.1) :
    (post.addLine line).Holds w (ls ++ [cLine line]) ∧ (post.addLine line).sent = post.sent ∨
      (post.addLine line).Holds w [] ∧
        (post.addLine line).sent = post.sent ++ [post.form (ls ++ [cLine line])] := by
  have hform : post.formpost ++ (cLine line).map (fun pair =>
      (arrayElement post.fPHPArrayName post.fLineNumber pair.1, pair.2)) =
        numbered post.fPHPArrayName 0 (ls ++ [cLine line]) := by
    rw [numbered_append, h.formpost, h.fLineNumber, Nat.zero_add]
    simp [numbered]
  have hpairs : post.fPostPairs + line.length = w * (ls ++ [cLine line]).length := by
    rw [h.fPostPairs, hlen, List.length_append, List.length_singleton, Nat.mul_succ]
  have hne : post.fPostPairs + line.length ≠ 0 := by omega
  have hwidth : post.fPairsPerLine = w ∨
      post.fPairsPerLine = 0 ∧ post.fPostPairs + line.length = w := by
    refine h.fPairsPerLine.imp_right fun hfirst => ⟨hfirst.1, ?_⟩
    rw [hpairs, hfirst.2]
    exact Nat.mul_one w
  have hroom := h.room
  rw [FZHttpPost.addLine, foldl_addToPost post harray hnames, hform,
    newLine_of_width hw hne hwidth]
  split
  · rw [sendPost_of_ne (ls ++ [cLine line]) rfl hne]
    exact .inr ⟨⟨rfl, rfl, rfl, .inl rfl, by simp; omega⟩, rfl⟩
  · rename_i hlimit
    refine .inl ⟨⟨rfl, ?_, hpairs, .inl rfl, ?_⟩, rfl⟩
    · simp [h.fLineNumber]
    · rw [← hpairs]
      simp only [checkPHPLimit, fMaxPHP, fNHdrElements, gt_iff_lt, decide_eq_true_eq] at hlimit
      omega

/-- Lines of `w` pairs that are sent in one POST. -/
structure Fits (w : Nat) (ls : List Line) : Prop where
  ne_nil : ls ≠ []
  width : ∀ line ∈ ls, line.length = w
  limit : w * ls.length + 2 ≤ 1000

theorem Holds.addLines {lines : List Line} (h : post.Holds w ls) (hw : 0 < w)
    (hwidth : ∀ line ∈ ls, line.length = w) (hlines : ∀ line ∈ lines, line.length = w)
    (harray : NulFree post.fPHPArrayName)
    (hnames : ∀ line ∈ lines, ∀ pair ∈ line, NulFree pair.1) :
    ∃ (batches : List (List Line)) (held : List Line),
      post.SameMembers (lines.foldl FZHttpPost.addLine post) ∧
      (lines.foldl FZHttpPost.addLine post).Holds w held ∧ (∀ line ∈ held, line.length = w) ∧
      (lines.foldl FZHttpPost.addLine post).sent = post.sent ++ batches.map post.form ∧
      batches.flatten ++ held = ls ++ lines.map cLine ∧ ∀ batch ∈ batches, Fits w batch := by
  induction lines generalizing post ls with
  | nil => exact ⟨[], ls, .refl post, h, hwidth, by simp, by simp, by simp⟩
  | cons line lines ih =>
    obtain ⟨hline, hlines⟩ := List.forall_mem_cons.1 hlines
    obtain ⟨hname, hnames⟩ := List.forall_mem_cons.1 hnames
    have hsame := addLine_members post line
    have hturn := h.addLine hw hline harray hname
    have hwidth' : ∀ l ∈ ls ++ [cLine line], l.length = w := by
      intro l hl
      rcases List.mem_append.1 hl with hl | hl
      · exact hwidth l hl
      · rw [List.mem_singleton.1 hl, cLine, List.length_map, hline]
    rw [← hsame.array] at harray
    rcases hturn with ⟨hholds, hsent⟩ | ⟨hholds, hsent⟩
    · obtain ⟨batches, held, hsame', hheld, hw', hsent', hflat, hfits⟩ :=
        ih hholds hwidth' hlines harray hnames
      refine ⟨batches, held, hsame.trans hsame', hheld, hw', ?_, by simpa using hflat, hfits⟩
      rw [List.foldl_cons, hsent', hsent]
      simp only [List.append_cancel_left_eq]
      exact List.map_congr_left fun batch _ => hsame.form batch
    · obtain ⟨batches, held, hsame', hheld, hw', hsent', hflat, hfits⟩ :=
        ih hholds (by simp) hlines harray hnames
      refine ⟨(ls ++ [cLine line]) :: batches, held, hsame.trans hsame', hheld, hw', ?_, ?_, ?_⟩
      · rw [List.foldl_cons, hsent', hsent, List.append_assoc, List.map_cons,
          List.singleton_append]
        congr 2
        exact List.map_congr_left fun batch _ => hsame.form batch
      · rw [List.flatten_cons, List.append_assoc, hflat]
        simp
      · refine List.forall_mem_cons.2 ⟨⟨by simp, hwidth', ?_⟩, hfits⟩
        have hroom := h.room
        rw [List.length_append, List.length_singleton, Nat.mul_succ]
        omega

theorem sent_lines {lines : List Line} (post : FZHttpPost) (hw : 0 < w) (hroom : w + 2 ≤ 1000)
    (hlines : ∀ line ∈ lines, line.length = w) (harray : NulFree post.fPHPArrayName)
    (hnames : ∀ line ∈ lines, ∀ pair ∈ line, NulFree pair.1) :
    ∃ batches : List (List Line),
      post.SameMembers (lines.foldl FZHttpPost.addLine post.newPost).sendPost ∧
      (lines.foldl FZHttpPost.addLine post.newPost).sendPost.sent =
        post.sent ++ batches.map post.form ∧
      batches.flatten = lines.map cLine ∧ ∀ batch ∈ batches, Fits w batch := by
  have hnew : post.newPost.Holds w [] := ⟨rfl, rfl, rfl, .inr ⟨rfl, rfl⟩, by simpa using hroom⟩
  obtain ⟨batches, held, hsame, hheld, hwidth, hsent, hflat, hfits⟩ :=
    hnew.addLines hw (by simp) hlines harray hnames
  have hsame' : post.SameMembers (lines.foldl FZHttpPost.addLine post.newPost) :=
    ⟨hsame.array, hsame.user, hsame.category⟩
  have hsent : (lines.foldl FZHttpPost.addLine post.newPost).sent =
      post.sent ++ batches.map post.form := hsent
  rcases List.eq_nil_or_concat held with rfl | ⟨front, last, hconcat⟩
  · have hnone : (lines.foldl FZHttpPost.addLine post.newPost).fPostPairs = 0 := hheld.fPostPairs
    rw [sendPost, if_pos hnone]
    exact ⟨batches, hsame', hsent, by simpa using hflat, hfits⟩
  · have hpos : 0 < held.length := by simp [hconcat]
    have hsome : (lines.foldl FZHttpPost.addLine post.newPost).fPostPairs ≠ 0 := by
      rw [hheld.fPostPairs]
      exact Nat.ne_of_gt (Nat.mul_pos hw hpos)
    rw [sendPost_of_ne held hheld.formpost hsome]
    refine ⟨batches ++ [held], ⟨hsame'.array, hsame'.user, hsame'.category⟩, ?_,
      by simpa using hflat, fun batch hbatch => ?_⟩
    · change _ ++ [_] = _
      rw [hsent, hsame'.form, List.map_append, List.map_singleton, List.append_assoc]
    · rcases List.mem_append.1 hbatch with hbatch | hbatch
      · exact hfits batch hbatch
      · rw [List.mem_singleton.1 hbatch]
        have hroom' := hheld.room
        exact ⟨List.ne_nil_of_length_pos hpos, hwidth, by omega⟩

end FZHttpPost

end FzDaq.Logger
