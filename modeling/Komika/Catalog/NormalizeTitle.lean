import Komika.Catalog.AliasIndex
import Komika.Catalog.RomanNumeral
import Komika.Lib.Tokens

/-!
# `normalize_title`

`catalog/normalize.rs` turns a title into the key of the alias index: ampersands are spelled
out, letters lowered and stripped of diacritics, everything else is a space, and trailing noise
("season 2", "part iii") is dropped unless nothing would be left.

Two titles are the same to the catalogue when their keys are equal, so a key has to be its own
key.  The letters of a key are settled: none of the passes over them changes one a second time.

The character tables of the standard library are a parameter.

The function is total in the source but for one index into a slice, so the model returns
an option and part of the work is to show that it never is `none` (`normalizeTitle_eq`).
`Unicode` is what is assumed of the tables: two laws on lower case and on what is not a
letter, which the sample at the end meets.

* `settled_fold`, `toLower_of_mem_lowerFrom` — what the passes write is settled;
* `stripTail_spec`, `kept_kept` — stripping twice is stripping once;
* `tokensOf_intercalate` — the words of a key are read back;
* `normalizeTitle_idempotent` — the key of a key is the key;
* `normalizedTitle_aliasRows` — so what the alias index holds are keys.
-/

namespace Komika.Catalog.NormalizeTitle

open Lib.Tokens
open Komika.Catalog.AliasIndex Komika.Catalog.RomanNumeral

/-! ## Characters

The passes over characters, in the order of the source. -/

/-- The tables behind `char` and `str`. -/
structure UnicodeData where
  /-- `unicode::Alphabetic`. -/
  alphabetic : Char → Bool
  /-- `unicode::N`. -/
  numeric : Char → Bool
  /-- `LOWERCASE_TABLE`. -/
  lowercase : Char → List Char
  /-- `Cased`. -/
  cased : Char → Bool
  /-- `Case_Ignorable`. -/
  caseIgnorable : Char → Bool

section Data

variable (u : UnicodeData)

/-- `char::is_alphanumeric`: a letter or a number, by the tables beyond ASCII. -/
def UnicodeData.isAlphanumeric (c : Char) : Bool :=
  if c.toNat < 128 then c.isAlphanum else u.alphabetic c || u.numeric c

/-- `conversions::to_lower`: one character may become several. -/
def UnicodeData.toLower (c : Char) : List Char :=
  if c.toNat < 128 then [c.toLower] else u.lowercase c

/-- `case_ignorable_then_cased`: a cased character comes next, after any that do not
matter for case. -/
def UnicodeData.caseIgnorableThenCased (cs : List Char) : Bool :=
  match cs.dropWhile u.caseIgnorable with
  | [] => false
  | c :: _ => u.cased c

/-- `map_uppercase_sigma`, with what stands before the sigma read backwards. -/
def UnicodeData.mapUppercaseSigma (before after : List Char) : Char :=
  if u.caseIgnorableThenCased before && !u.caseIgnorableThenCased after then 'ς' else 'σ'

/-- The characters of a text in lower case, `before` being read already. -/
def UnicodeData.lowerFrom : List Char → List Char → List Char
  | _, [] => []
  | before, c :: after =>
    (if c = 'Σ' then [u.mapUppercaseSigma before after] else u.toLower c) ++
      UnicodeData.lowerFrom (c :: before) after

/-- `str::to_lowercase`, with the final sigma, the only letter that depends on its
place. -/
def UnicodeData.toLowercase (s : String) : String := String.ofList (u.lowerFrom [] s.toList)

end Data

/-- The tables, with what holds of them: a letter written in lower case is its own lower case,
and neither white space nor the full-width ampersand is a letter or a number. -/
structure Unicode extends UnicodeData where
  toLower_toLower : ∀ c, ∀ d ∈ toUnicodeData.toLower c, toUnicodeData.toLower d = [d]
  toLower_sigma : toUnicodeData.toLower 'Σ' = ['σ']
  toLower_finalSigma : toUnicodeData.toLower 'ς' = ['ς']
  whitespace : ∀ c, isWhitespace c = true → toUnicodeData.isAlphanumeric c = false
  ampersand : toUnicodeData.isAlphanumeric '＆' = false

/-- `fold_diacritic`: the letter without its mark, for the marks of the table. -/
def foldDiacritic (c : Char) : Char :=
  match c with
  | 'à' | 'á' | 'â' | 'ã' | 'ä' | 'å' | 'ā' | 'ă' | 'ą' | 'ǎ' | 'ả' | 'ạ' => 'a'
  | 'è' | 'é' | 'ê' | 'ë' | 'ē' | 'ĕ' | 'ė' | 'ę' | 'ě' | 'ẹ' | 'ẻ' => 'e'
  | 'ì' | 'í' | 'î' | 'ï' | 'ī' | 'ĭ' | 'į' | 'ı' | 'ǐ' | 'ị' => 'i'
  | 'ò' | 'ó' | 'ô' | 'õ' | 'ö' | 'ø' | 'ō' | 'ŏ' | 'ő' | 'ǒ' | 'ơ' | 'ọ' | 'ỏ' => 'o'
  | 'ù' | 'ú' | 'û' | 'ü' | 'ū' | 'ŭ' | 'ů' | 'ű' | 'ų' | 'ǔ' | 'ư' | 'ụ' => 'u'
  | 'ñ' | 'ń' | 'ň' | 'ņ' => 'n'
  | 'ç' | 'ć' | 'č' | 'ĉ' | 'ċ' => 'c'
  | 'ý' | 'ÿ' | 'ỳ' | 'ỹ' => 'y'
  | 'š' | 'ś' | 'ş' | 'ŝ' => 's'
  | 'ž' | 'ź' | 'ż' => 'z'
  | 'ğ' | 'ĝ' | 'ġ' | 'ģ' => 'g'
  | 'ł' => 'l'
  | 'đ' | 'ð' => 'd'
  | c => c

/-! ## The noise at the end

The tokens from the end, as long as they are noise or a number behind noise. -/

/-- `NOISE_TAIL`: words at the end of a title that do not tell works apart. -/
def noiseTail : List String :=
  ["season", "part", "cour", "arc", "the", "animation", "manga", "manhwa", "manhua", "official",
    "colored", "color", "remake", "remaster", "remastered", "uncensored"]

/-- Whether a turn of the loop pops the last token. -/
def pops (tokens : List String) : Option Bool :=
  match tokens.getLast? with
  | none => pure false
  | some last => do
    let isNumber := last.toList.all Char.isDigit
    let isRoman ← isRomanNumeral last
    if noiseTail.contains last then pure true
    else if (isNumber || isRoman) && tokens.length ≥ 2 then do
      let prev ← tokens[tokens.length - 2]?
      pure (noiseTail.contains prev)
    else pure false

/-- The loop: drops the last word while it is noise, or a number behind noise. -/
def stripTail (tokens : List String) : Option (List String) :=
  match _h : pops tokens with
  | none => none
  | some true => stripTail tokens.dropLast
  | some false => some tokens
termination_by tokens.length
decreasing_by
  cases tokens with
  | nil => exact absurd _h (by simp [pops])
  | cons => simp

/-! ## The key -/

/-- `str::replace` of a character. -/
def replace (s : String) (c : Char) (text : String) : String :=
  String.ofList (s.toList.flatMap fun d => if d = c then text.toList else [d])

/-- The title with ampersands spelled out. -/
def expanded (raw : String) : String :=
  replace (replace raw '&' " and ") '＆' " and "

/-- The title after expanding, lowercasing and folding. -/
def folded (u : UnicodeData) (raw : String) : List Char :=
  (u.toLowercase (expanded raw)).toList.map foldDiacritic

/-- `normalize_title`; `none` is a panic. -/
def normalizeTitle (u : UnicodeData) (raw : String) : Option String := do
  let spaced := String.ofList ((folded u raw).map fun c => if u.isAlphanumeric c then c else ' ')
  let preStrip := splitWhitespace spaced
  let tokens ← stripTail preStrip
  if tokens.isEmpty && !preStrip.isEmpty then pure (" ".intercalate preStrip)
  else pure (" ".intercalate tokens)

/-! ## Settled letters

A letter that has gone through the passes is not changed by going through them again. -/

/-- The letters that `foldDiacritic` writes. -/
def baseLetters : List Char := ['a', 'e', 'i', 'o', 'u', 'n', 'c', 'y', 's', 'z', 'g', 'l', 'd']

/-- A letter is left as it is or becomes a base letter. -/
theorem foldDiacritic_cases (c : Char) :
    foldDiacritic c = c ∨ foldDiacritic c ∈ baseLetters := by
  unfold foldDiacritic
  split <;> first | exact Or.inl rfl | exact Or.inr (by decide)

section Letters

variable (u : Unicode)

/-- A letter or a number that no pass over the characters changes. -/
structure Settled (c : Char) : Prop where
  alphanumeric : u.isAlphanumeric c = true
  lower : u.toLower c = [c]
  fold : foldDiacritic c = c

variable {u}

theorem settled_base {c : Char} (hc : c ∈ baseLetters) : Settled u c := by
  simp only [baseLetters, List.mem_cons, List.not_mem_nil, or_false] at hc
  rcases hc with rfl | rfl | rfl | rfl | rfl | rfl | rfl | rfl | rfl | rfl | rfl | rfl | rfl <;>
    exact ⟨rfl, rfl, rfl⟩

/-- What the fold makes of a letter in lower case is settled, when it is kept at all. -/
theorem settled_fold {c : Char} (hlower : u.toLower c = [c])
    (halnum : u.isAlphanumeric (foldDiacritic c) = true) : Settled u (foldDiacritic c) := by
  rcases foldDiacritic_cases c with h | h
  · rw [h] at halnum ⊢
    exact ⟨halnum, hlower, h⟩
  · exact settled_base h

/-- Every character of a text in lower case is its own lower case, the two small sigmas
included. -/
theorem toLower_of_mem_lowerFrom {before cs : List Char} {d : Char}
    (hd : d ∈ u.lowerFrom before cs) : u.toLower d = [d] := by
  induction cs generalizing before with
  | nil => exact absurd hd List.not_mem_nil
  | cons c cs ih =>
    rw [UnicodeData.lowerFrom, List.mem_append] at hd
    rcases hd with hd | hd
    · split at hd
      case isTrue =>
        rw [List.mem_singleton] at hd
        rw [hd, UnicodeData.mapUppercaseSigma]
        split
        · exact u.toLower_finalSigma
        · exact u.toLower_toLower 'Σ' 'σ' (by rw [u.toLower_sigma]; exact List.mem_singleton_self _)
      case isFalse => exact u.toLower_toLower c d hd
    · exact ih hd

/-- The capital sigma is not, as lower case changes it. -/
theorem Settled.ne_sigma {c : Char} (hc : Settled u c) : c ≠ 'Σ' := by
  rintro rfl
  have h := u.toLower_sigma.symm.trans hc.lower
  exact absurd h (by decide)

/-- It is no character that the key drops. -/
theorem Settled.ne {c d : Char} (hc : Settled u c) (hd : u.isAlphanumeric d = false) : c ≠ d := by
  rintro rfl
  rw [hc.alphanumeric] at hd
  cases hd

theorem Settled.ne_ampersand {c : Char} (hc : Settled u c) : c ≠ '&' ∧ c ≠ '＆' :=
  ⟨hc.ne rfl, hc.ne u.ampersand⟩

theorem Settled.not_whitespace {c : Char} (hc : Settled u c) : isWhitespace c = false := by
  by_contra h
  exact hc.ne (u.whitespace c (Bool.not_eq_false _ ▸ h)) rfl

/-! ## A settled text

The same for a text, with the spaces between its words. -/

/-- A text of settled letters and spaces. -/
def SettledText (u : Unicode) (cs : List Char) : Prop := ∀ c ∈ cs, c = ' ' ∨ Settled u c

variable {cs : List Char}

/-- A text without the character is left as it is. -/
theorem replace_of_notMem {s : String} {c : Char} (hc : c ∉ s.toList) (text : String) :
    replace s c text = s := by
  have hone : s.toList.flatMap (fun d => if d = c then text.toList else [d]) =
      s.toList.flatMap fun d => [d] := by
    apply List.flatMap_congr
    intro d hd
    have hdc : d ≠ c := fun h => hc (h ▸ hd)
    rw [if_neg hdc]
  rw [replace, hone, List.flatMap_singleton', String.ofList_toList]

/-- There is no ampersand to spell out. -/
theorem SettledText.expanded (h : SettledText u cs) :
    expanded (String.ofList cs) = String.ofList cs := by
  have hno : '&' ∉ cs ∧ '＆' ∉ cs := by
    constructor <;> intro hmem <;> rcases h _ hmem with hsp | hc
    · exact absurd hsp (by decide)
    · exact hc.ne_ampersand.1 rfl
    · exact absurd hsp (by decide)
    · exact hc.ne_ampersand.2 rfl
  rw [← String.toList_ofList (l := cs)] at hno
  rw [NormalizeTitle.expanded, replace_of_notMem hno.1, replace_of_notMem hno.2]

theorem SettledText.lowerFrom (h : SettledText u cs) (before : List Char) :
    u.lowerFrom before cs = cs := by
  induction cs generalizing before with
  | nil => rfl
  | cons c cs ih =>
    have hc : c ≠ 'Σ' ∧ u.toLower c = [c] := by
      rcases h c List.mem_cons_self with rfl | hc
      · exact ⟨by decide, rfl⟩
      · exact ⟨hc.ne_sigma, hc.lower⟩
    rw [UnicodeData.lowerFrom, if_neg hc.1, hc.2, ih fun d hd => h d (List.mem_cons_of_mem _ hd)]
    rfl

/-- Expanding, lowercasing and folding leave it alone. -/
theorem SettledText.folded (h : SettledText u cs) :
    folded u.toUnicodeData (String.ofList cs) = cs := by
  have hfold : cs.map foldDiacritic = cs.map id := by
    apply List.map_congr_left
    intro c hc
    rcases h c hc with rfl | hc
    · rfl
    · exact hc.fold
  rw [NormalizeTitle.folded, h.expanded, UnicodeData.toLowercase, String.toList_ofList,
    String.toList_ofList, h.lowerFrom, hfold, List.map_id]

end Letters

/-! ## Stripping the tail -/

section Strip

/-- The test for noise does not panic. -/
theorem exists_pops (tokens : List String) : ∃ b, pops tokens = some b := by
  unfold pops
  cases tokens.getLast? with
  | none => exact ⟨false, rfl⟩
  | some last =>
    simp only [isRomanNumeral_eq, Option.bind_eq_bind, Option.bind_some]
    split
    case isTrue => exact ⟨true, rfl⟩
    case isFalse =>
      split
      case isTrue h =>
        -- there are two tokens, so the look-back stays inside them
        have hlen : tokens.length - 2 < tokens.length := by
          have htwo : 2 ≤ tokens.length := of_decide_eq_true (Bool.and_eq_true_iff.mp h).2
          omega
        rw [List.getElem?_eq_getElem hlen]
        exact ⟨_, rfl⟩
      case isFalse => exact ⟨false, rfl⟩

/-- Where nothing pops the loop ends. -/
theorem stripTail_of_pops {tokens : List String} (h : pops tokens = some false) :
    stripTail tokens = some tokens := by
  rw [stripTail]
  split
  case h_1 hn => rw [h] at hn; cases hn
  case h_2 ht => rw [h] at ht; cases ht
  case h_3 => rfl

/-- The loop ends with a prefix of the tokens from which nothing more strips. -/
theorem stripTail_spec (tokens : List String) :
    ∃ out, stripTail tokens = some out ∧ out <+: tokens ∧ stripTail out = some out := by
  induction tokens using stripTail.induct with
  | case1 tokens hn =>
    obtain ⟨b, hb⟩ := exists_pops tokens
    rw [hn] at hb
    cases hb
  | case2 tokens ht ih =>
    obtain ⟨out, hout, hprefix, hstable⟩ := ih
    have hstep : stripTail tokens = stripTail tokens.dropLast := by
      rw [stripTail]
      split
      case h_1 hn => rw [ht] at hn; cases hn
      case h_2 => rfl
      case h_3 hf => rw [ht] at hf; cases hf
    exact ⟨out, hstep.trans hout, hprefix.trans (List.dropLast_prefix tokens), hstable⟩
  | case3 tokens hf =>
    have hstop := stripTail_of_pops hf
    exact ⟨tokens, hstop, List.prefix_rfl, hstop⟩

/-- The tokens of the key: what is left after stripping, or everything when nothing is. -/
def kept (tokens : List String) : List String :=
  let out := (stripTail tokens).getD []
  if out.isEmpty && !tokens.isEmpty then tokens else out

/-- The tokens that are kept come first. -/
theorem prefix_kept (tokens : List String) : kept tokens <+: tokens := by
  obtain ⟨out, hout, hprefix, -⟩ := stripTail_spec tokens
  rw [kept, hout, Option.getD_some]
  split
  · exact List.prefix_rfl
  · exact hprefix

/-- The fall-back falls back again, and what was stripped has nothing more to strip. -/
theorem kept_kept (tokens : List String) : kept (kept tokens) = kept tokens := by
  obtain ⟨out, hout, -, hstable⟩ := stripTail_spec tokens
  have hkept : kept tokens = if out.isEmpty && !tokens.isEmpty then tokens else out := by
    rw [kept, hout, Option.getD_some]
  by_cases hfall : (out.isEmpty && !tokens.isEmpty) = true
  · rw [if_pos hfall] at hkept
    rw [hkept, hkept]
  · rw [if_neg hfall] at hkept
    rw [hkept, kept, hstable, Option.getD_some]
    cases out <;> rfl

/-- A title with tokens keeps some. -/
theorem kept_eq_nil_iff {tokens : List String} : kept tokens = [] ↔ tokens = [] := by
  constructor
  · intro h
    by_contra hne
    obtain ⟨out, hout, -, -⟩ := stripTail_spec tokens
    rw [kept, hout, Option.getD_some] at h
    split at h
    case isTrue => exact hne h
    case isFalse hfall => simp [h, hne] at hfall
  · rintro rfl
    exact List.prefix_nil.mp (prefix_kept [])

end Strip

/-! ## The key of a key

A key is settled, so its passes change nothing, and its words are read back and not
stripped again. -/

section Key

variable {u : Unicode}

/-- The tokens of a title. -/
def tokensOf (u : UnicodeData) (raw : String) : List String :=
  splitWhitespace (String.ofList ((folded u raw).map fun c =>
    if u.isAlphanumeric c then c else ' '))

/-- The key is its tokens, joined by spaces. -/
theorem normalizeTitle_eq (u : UnicodeData) (raw : String) :
    normalizeTitle u raw = some (" ".intercalate (kept (tokensOf u raw))) := by
  obtain ⟨out, hout, -, -⟩ := stripTail_spec (tokensOf u raw)
  have hstrip : stripTail (splitWhitespace (String.ofList ((folded u raw).map fun c =>
      if u.isAlphanumeric c then c else ' '))) = some out := hout
  rw [normalizeTitle, kept, hout, Option.getD_some]
  simp only [hstrip, Option.bind_eq_bind, Option.bind_some]
  rw [tokensOf]
  split
  · rfl
  · rfl

/-- `split_whitespace` gives the words of the text. -/
theorem splitWhitespace_eq (s : String) :
    splitWhitespace s = (tokens isWhitespace s.toList).map String.ofList := by
  rw [splitWhitespace, tokens]
  congr 1
  apply List.filter_congr
  intro w _
  cases w <;> rfl

/-- Words of settled letters. -/
def SettledWords (u : Unicode) (ws : List String) : Prop :=
  ∀ w ∈ ws, w ≠ "" ∧ ∀ c ∈ w.toList, Settled u c

/-- Fewer words are settled as well. -/
theorem SettledWords.mono {ws vs : List String} (h : SettledWords u ws) (hvs : vs <+: ws) :
    SettledWords u vs := fun w hw => h w (hvs.subset hw)

/-- The characters of a folded title that are kept are settled. -/
theorem settled_of_mem_folded {raw : String} {c : Char} (hc : c ∈ folded u.toUnicodeData raw)
    (halnum : u.isAlphanumeric c = true) : Settled u c := by
  obtain ⟨d, hd, rfl⟩ := List.mem_map.mp hc
  rw [UnicodeData.toLowercase, String.toList_ofList] at hd
  exact settled_fold (toLower_of_mem_lowerFrom hd) halnum

/-- The tokens of a title are words of settled letters. -/
theorem settledWords_tokensOf (raw : String) :
    SettledWords u (tokensOf u.toUnicodeData raw) := by
  intro w hw
  rw [tokensOf, splitWhitespace_eq, String.toList_ofList] at hw
  obtain ⟨piece, hpiece, rfl⟩ := List.mem_map.mp hw
  obtain ⟨hsplit, hne⟩ := mem_tokens.mp hpiece
  refine ⟨fun h => hne ?_, fun c hc => ?_⟩
  · have hnil := congrArg String.toList h
    rwa [String.toList_ofList] at hnil
  · rw [String.toList_ofList] at hc
    obtain ⟨hmem, hspace⟩ := of_mem_splitOnP hsplit c hc
    obtain ⟨d, hd, hdc⟩ := List.mem_map.mp hmem
    split at hdc
    case isTrue halnum => exact hdc ▸ settled_of_mem_folded hd halnum
    case isFalse =>
      rw [← hdc] at hspace
      exact absurd hspace (by decide)

/-- Words that were joined are read back. -/
theorem tokensOf_intercalate {ws : List String} (h : SettledWords u ws) :
    tokensOf u.toUnicodeData (" ".intercalate ws) = ws := by
  have hjoin : (" ".intercalate ws).toList = [' '].intercalate (ws.map String.toList) :=
    String.toList_intercalate
  have hsettled : SettledText u ([' '].intercalate (ws.map String.toList)) := by
    intro c hc
    rcases mem_intercalate hc with hsp | ⟨w, hw, hcw⟩
    · exact Or.inl hsp
    · obtain ⟨v, hv, rfl⟩ := List.mem_map.mp hw
      exact Or.inr ((h v hv).2 c hcw)
  have hblank : ([' '].intercalate (ws.map String.toList)).map
      (fun c => if u.isAlphanumeric c then c else ' ') =
        ([' '].intercalate (ws.map String.toList)).map id := by
    apply List.map_congr_left
    intro c hc
    rcases hsettled c hc with rfl | hc
    · exact ite_self _
    · exact if_pos hc.alphanumeric
  have hread : tokens isWhitespace ([' '].intercalate (ws.map String.toList)) =
      ws.map String.toList := by
    apply tokens_intercalate (by decide)
    · intro w hw
      obtain ⟨v, hv, rfl⟩ := List.mem_map.mp hw
      exact fun hnil => (h v hv).1 (String.toList_eq_nil_iff.mp hnil)
    · intro w hw c hc
      obtain ⟨v, hv, rfl⟩ := List.mem_map.mp hw
      exact ((h v hv).2 c hc).not_whitespace
  rw [← String.ofList_toList (s := " ".intercalate ws), hjoin, tokensOf, hsettled.folded,
    hblank, List.map_id, splitWhitespace_eq, String.toList_ofList, hread, List.map_map]
  simp

/-- A title has no tokens when none of its letters is kept. -/
theorem tokensOf_eq_nil_iff {raw : String} : tokensOf u.toUnicodeData raw = [] ↔
    ∀ c ∈ folded u.toUnicodeData raw, u.isAlphanumeric c = false := by
  rw [tokensOf, splitWhitespace_eq, String.toList_ofList, List.map_eq_nil_iff,
    tokens_eq_nil_iff, List.forall_mem_map]
  apply forall₂_congr
  intro c _
  cases halnum : u.isAlphanumeric c with
  | false => simp [isWhitespace]
  | true =>
    rw [if_pos rfl]
    constructor
    · intro hspace
      exact absurd ((u.whitespace c hspace).symm.trans halnum) (by decide)
    · intro h
      cases h

theorem tokensOf_empty : tokensOf u.toUnicodeData "" = [] := by
  have hnone : SettledText u [] := fun c hc => absurd hc List.not_mem_nil
  have hfolded : folded u.toUnicodeData "" = [] := hnone.folded
  rw [tokensOf_eq_nil_iff, hfolded]
  exact fun c hc => absurd hc List.not_mem_nil

/-- A key has letters when it has tokens. -/
theorem intercalate_eq_empty_iff {ws : List String} (h : SettledWords u ws) :
    " ".intercalate ws = "" ↔ ws = [] := by
  constructor
  · intro hempty
    rw [← tokensOf_intercalate h, hempty, tokensOf_empty]
  · rintro rfl
    rfl

/-- A key is its own key. -/
theorem normalizeTitle_key {raw key : String}
    (h : normalizeTitle u.toUnicodeData raw = some key) :
    normalizeTitle u.toUnicodeData key = some key := by
  have hkey : " ".intercalate (kept (tokensOf u.toUnicodeData raw)) = key :=
    Option.some.inj ((normalizeTitle_eq _ raw).symm.trans h)
  rw [normalizeTitle_eq, ← hkey]
  exact congrArg some (idempotent_of_read_back (G := SettledWords u) settledWords_tokensOf
    (fun ws h => h.mono (prefix_kept ws)) (fun ws => tokensOf_intercalate) kept_kept raw)

/-- **`normalize_title` is its own normal form** and never erases a title: the key of a
key is the key, it is empty exactly for a title without letters and numbers, and it is
made of words with one space between them.  Of the tables of Unicode the proof uses that
what is written in lower case is its own lower case, and that no blank is a letter or a
number. -/
theorem normalizeTitle_idempotent (u : Unicode) (title : String) :
    ∃ key, normalizeTitle u.toUnicodeData title = some key ∧
      normalizeTitle u.toUnicodeData key = some key ∧
      (key = "" ↔ ∀ c ∈ folded u.toUnicodeData title, u.isAlphanumeric c = false) ∧
      ∃ words, key = " ".intercalate words ∧
        ∀ w ∈ words, w ≠ "" ∧ ∀ c ∈ w.toList, u.isAlphanumeric c = true := by
  have hkey := normalizeTitle_eq u.toUnicodeData title
  have hkept : SettledWords u (kept (tokensOf u.toUnicodeData title)) :=
    (settledWords_tokensOf title).mono (prefix_kept _)
  refine ⟨_, hkey, normalizeTitle_key hkey, ?_, _, rfl, ?_⟩
  · rw [intercalate_eq_empty_iff hkept, kept_eq_nil_iff, tokensOf_eq_nil_iff]
  · exact fun w hw => ⟨(hkept w hw).1, fun c hc => ((hkept w hw).2 c hc).alphanumeric⟩

/-! ## The aliases of a work -/

/-- The catalogue's rules, with this `normalize_title`; it does not panic. -/
def titleRules (u : UnicodeData) (rules : Ingest.TextRules) : Ingest.TextRules :=
  { rules with normalizeTitle := fun raw => (normalizeTitle u raw).getD "" }

/-- An alias that `insert_aliases` offers to the index holds a key of words. -/
theorem normalizedTitle_aliasRows {rules : Ingest.TextRules} {workId : Schema.Id}
    {aliases : List Ingest.Alias} :
    ∀ row ∈ Ingest.aliasRows (titleRules u.toUnicodeData rules) workId aliases,
      normalizeTitle u.toUnicodeData row.normalizedTitle = some row.normalizedTitle ∧
        row.normalizedTitle ≠ "" := by
  intro row hrow
  obtain ⟨hmem, hne⟩ := List.mem_filter.mp hrow
  obtain ⟨a, -, rfl⟩ := List.mem_map.mp hmem
  refine ⟨?_, of_decide_eq_true hne⟩
  have hkey := normalizeTitle_eq u.toUnicodeData a.raw
  show normalizeTitle u.toUnicodeData ((normalizeTitle u.toUnicodeData a.raw).getD "") =
    some ((normalizeTitle u.toUnicodeData a.raw).getD "")
  rw [hkey, Option.getD_some]
  exact normalizeTitle_key hkey

end Key

/-! ## A sample of the tables -/

/-- The entries of the tables for a few letters. -/
def sampleTables : UnicodeData where
  alphabetic c := c ∈ ['Ō', 'ō', 'ū', 'Σ', 'σ', 'ς', '鬼']
  numeric _ := false
  lowercase c := if c = 'Ō' then ['ō'] else if c = 'Σ' then ['σ'] else [c]
  cased c := c.isAlpha || c ∈ ['Ō', 'ō', 'ū', 'Σ', 'σ', 'ς']
  caseIgnorable c := c ∈ ['.', ':', '^']

/-- What the laws ask of a character. -/
def lawful (c : Char) : Bool :=
  (sampleTables.toLower c).all (fun d => sampleTables.toLower d == [d]) &&
    (!isWhitespace c || !sampleTables.isAlphanumeric c)

/-- The ASCII half of the tables, by looking at all of it. -/
theorem lawful_ascii {c : Char} (hc : c.toNat < 128) : lawful c = true := by
  have hall : ((List.range 128).all fun n => lawful (Char.ofNat n)) = true := by
    decide +kernel
  have h := List.all_eq_true.mp hall c.toNat (List.mem_range.mpr hc)
  rwa [Char.ofNat_toNat] at h

/-- The sample obeys the laws. -/
def sample : Unicode where
  toUnicodeData := sampleTables
  toLower_toLower c d hd := by
    by_cases hc : c.toNat < 128
    · have hlaw := (Bool.and_eq_true_iff.mp (lawful_ascii hc)).1
      exact eq_of_beq (List.all_eq_true.mp hlaw d hd)
    · rw [UnicodeData.toLower, if_neg hc] at hd
      simp only [sampleTables] at hd
      split at hd
      case isTrue => rw [List.mem_singleton.mp hd]; rfl
      case isFalse hō =>
        split at hd
        case isTrue => rw [List.mem_singleton.mp hd]; rfl
        case isFalse hσ =>
          rw [List.mem_singleton.mp hd, UnicodeData.toLower, if_neg hc]
          simp [sampleTables, hō, hσ]
  toLower_sigma := rfl
  toLower_finalSigma := rfl
  whitespace c hspace := by
    by_cases hc : c.toNat < 128
    · have hlaw := (Bool.and_eq_true_iff.mp (lawful_ascii hc)).2
      rw [hspace] at hlaw
      simpa using hlaw
    · rw [UnicodeData.isAlphanumeric, if_neg hc]
      by_contra hletter
      have hmem : c ∈ ['Ō', 'ō', 'ū', 'Σ', 'σ', 'ς', '鬼'] := by
        rw [Bool.not_eq_false, Bool.or_eq_true] at hletter
        rcases hletter with h | h
        · exact of_decide_eq_true h
        · cases h
      simp only [List.mem_cons, List.not_mem_nil, or_false] at hmem
      rcases hmem with rfl | rfl | rfl | rfl | rfl | rfl | rfl <;> cases hspace
  ampersand := rfl

/-- A title with a macron, an ampersand, a capital sigma and a tail. -/
theorem normalizeTitle_idempotent_sample :
    normalizeTitle sampleTables "Ōkami & Σ Season 2" = some "okami and σ" ∧
    ∃ key, normalizeTitle sampleTables "Ōkami & Σ Season 2" = some key ∧
      normalizeTitle sampleTables key = some key ∧
      (key = "" ↔ ∀ c ∈ folded sampleTables "Ōkami & Σ Season 2",
        sampleTables.isAlphanumeric c = false) ∧
      ∃ words, key = " ".intercalate words ∧
        ∀ w ∈ words, w ≠ "" ∧ ∀ c ∈ w.toList, sampleTables.isAlphanumeric c = true :=
  ⟨by decide +kernel, normalizeTitle_idempotent sample "Ōkami & Σ Season 2"⟩

end Komika.Catalog.NormalizeTitle
