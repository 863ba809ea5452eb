import FrogAgent.Runtime.Timestamp

/-!
# The text of the state file

`write_state` of `runtime/state_file.rs` writes what the registry lists to a file that a
frontend polls.  The bytes determine the second of the report and the list.
-/

namespace FrogAgent.StateFile

open FrogAgent.Decimal
open FrogAgent.Runtime

/-! ## The text -/

/-- An entry of `registry::list`. -/
structure RuntimeInfo where
  id : ℕ
  hooksInstalled : ℕ
  journalAddresses : ℕ
  deriving DecidableEq

/-- The format version. -/
def version : ℕ := 1

def runtimeJson (info : RuntimeInfo) (last : Bool) : String :=
  "    \x7b\n" ++ ("      \"id\": " ++ toString info.id ++ ",\n") ++
    ("      \"hooks_installed\": " ++ toString info.hooksInstalled ++ ",\n") ++
    ("      \"journal_addresses\": " ++ toString info.journalAddresses ++ "\n") ++
    (if last then "    \x7d\n" else "    \x7d,\n")

/-- The loop over the list; the last entry has no comma. -/
def runtimesJson : List RuntimeInfo → String
  | [] => ""
  | info :: rest => runtimeJson info rest.isEmpty ++ runtimesJson rest

def stateJson (ts : String) (runtimes : List RuntimeInfo) : String :=
  "\x7b\n" ++ ("  \"version\": " ++ toString version ++ ",\n") ++
    ("  \"ts\": \"" ++ ts ++ "\",\n") ++ "  \"runtimes\": [\n" ++ runtimesJson runtimes ++
    "  ]\n" ++ "\x7d\n"

/-- What `write_state` reads: the clock and the registry. -/
structure Report where
  sinceEpoch : Option UInt64
  runtimes : List RuntimeInfo
  deriving DecidableEq

/-- The second the report was made in; a clock before 1970 counts as 1970. -/
def Report.secs (report : Report) : ℕ := (report.sinceEpoch.getD 0).toNat

def Report.json (report : Report) : String :=
  stateJson (currentIso8601 report.sinceEpoch) report.runtimes

/-- The bytes of the file. -/
def Report.document (report : Report) : List UInt8 := report.json.toByteArray.data.toList

/-! ## Reading the text -/

/-- An entry up to its closing brace, and what stands behind it. -/
def entryChars (info : RuntimeInfo) (rest : List Char) : List Char :=
  "    \x7b\n".toList ++ ("      \"id\": ".toList ++ (Nat.toDigits 10 info.id ++
    ',' :: '\n' :: ("      \"hooks_installed\": ".toList ++
      (Nat.toDigits 10 info.hooksInstalled ++ ',' :: '\n' ::
        ("      \"journal_addresses\": ".toList ++ (Nat.toDigits 10 info.journalAddresses ++
          '\n' :: ("    \x7d".toList ++ rest)))))))

/-- The separator behind an entry. -/
def separator (rest : List RuntimeInfo) : List Char :=
  if rest.isEmpty then ['\n'] else [',', '\n']

theorem toList_entry (start first second third comma line close id hooks journal : String) :
    (start ++ (first ++ id ++ comma) ++ (second ++ hooks ++ comma) ++
        (third ++ journal ++ line) ++ close).toList =
      start.toList ++ (first.toList ++ (id.toList ++ (comma.toList ++ (second.toList ++
        (hooks.toList ++ (comma.toList ++ (third.toList ++ (journal.toList ++
          (line.toList ++ close.toList))))))))) := by
  simp only [String.toList_append, List.append_assoc]

theorem toList_runtimesJson_cons (info : RuntimeInfo) (rest : List RuntimeInfo) :
    (runtimesJson (info :: rest)).toList =
      entryChars info (separator rest ++ (runtimesJson rest).toList) := by
  have hclose : (if rest.isEmpty then "    \x7d\n" else "    \x7d,\n").toList =
      "    \x7d".toList ++ separator rest := by
    rw [separator]
    split <;> rfl
  have hnumber : ∀ n : ℕ, (toString n).toList = Nat.toDigits 10 n := fun n => Nat.toList_repr
  rw [runtimesJson, String.toList_append, runtimeJson, toList_entry, hclose, hnumber, hnumber,
    hnumber]
  unfold entryChars
  simp only [List.append_assoc]
  rfl

theorem entryChars_inj {first second : RuntimeInfo} {firstRest secondRest : List Char}
    (htexts : entryChars first firstRest = entryChars second secondRest) :
    first = second ∧ firstRest = secondRest := by
  have hid := List.append_cancel_left (List.append_cancel_left htexts)
  obtain ⟨hsame, hrest⟩ := toDigits_append_inj (by decide) (by decide) hid
  have hhooks := List.append_cancel_left (List.cons.inj hrest).2
  obtain ⟨hhooksSame, hrest⟩ := toDigits_append_inj (by decide) (by decide) hhooks
  have hjournal := List.append_cancel_left (List.cons.inj hrest).2
  obtain ⟨hjournalSame, hrest⟩ := toDigits_append_inj (by decide) (by decide) hjournal
  refine ⟨?_, List.append_cancel_left hrest⟩
  cases first
  cases second
  simp only [RuntimeInfo.mk.injEq]
  exact ⟨hsame, hhooksSame, hjournalSame⟩

/-- What closes the list. -/
def listEnd (rest : List Char) : List Char := "  ]\n".toList ++ rest

theorem entryChars_ne_listEnd (info : RuntimeInfo) (rest other : List Char) :
    entryChars info rest ≠ listEnd other := by
  intro heq
  have hspace : (entryChars info rest)[2]? = some ' ' := rfl
  have hbracket : (listEnd other)[2]? = some ']' := rfl
  rw [heq, hbracket] at hspace
  exact absurd hspace (by decide)

theorem runtimesJson_inj {first second : List RuntimeInfo} {rest : List Char}
    (htexts : (runtimesJson first).toList ++ listEnd rest =
      (runtimesJson second).toList ++ listEnd rest) : first = second := by
  have happend : ∀ info inner outer,
      entryChars info inner ++ outer = entryChars info (inner ++ outer) := by
    intro info inner outer
    unfold entryChars
    simp only [List.append_assoc, List.cons_append]
  induction first generalizing second with
  | nil =>
      cases second with
      | nil => rfl
      | cons info second =>
          rw [toList_runtimesJson_cons, happend] at htexts
          exact absurd htexts.symm (entryChars_ne_listEnd _ _ _)
  | cons info first ih =>
      cases second with
      | nil =>
          rw [toList_runtimesJson_cons, happend] at htexts
          exact absurd htexts (entryChars_ne_listEnd _ _ _)
      | cons other second =>
          rw [toList_runtimesJson_cons, toList_runtimesJson_cons, happend, happend] at htexts
          obtain ⟨rfl, hbehind⟩ := entryChars_inj htexts
          cases first with
          | nil =>
              cases second with
              | nil => rfl
              | cons next second =>
                  have hcomma := congrArg (fun chars => chars[0]?) hbehind
                  simp [separator] at hcomma
          | cons next first =>
              cases second with
              | nil =>
                  have hcomma := congrArg (fun chars => chars[0]?) hbehind
                  simp [separator] at hcomma
              | cons last second =>
                  simp only [separator, List.isEmpty_cons, List.append_assoc] at hbehind
                  rw [ih (List.append_cancel_left hbehind)]

/-- The text between two quotation marks, and what stands behind it. -/
def headChars (ts : List Char) (rest : List Char) : List Char :=
  "\x7b\n  \"version\": 1,\n  \"ts\": \"".toList ++
    (ts ++ '"' :: (",\n  \"runtimes\": [\n".toList ++ rest))

theorem toList_stateJson (ts : String) (runtimes : List RuntimeInfo) :
    (stateJson ts runtimes).toList =
      headChars ts.toList ((runtimesJson runtimes).toList ++ listEnd "\x7d\n".toList) := by
  have hpieces : ∀ start label number comma stamp quote open' entries close last : String,
      (start ++ (label ++ number ++ comma) ++ (stamp ++ ts ++ quote) ++ open' ++ entries ++
          close ++ last).toList =
        (start ++ (label ++ number ++ comma) ++ stamp).toList ++ (ts.toList ++
          (quote.toList ++ open'.toList ++ (entries.toList ++
            (close.toList ++ last.toList)))) := by
    intro start label number comma stamp quote open' entries close last
    simp only [String.toList_append, List.append_assoc]
  rw [stateJson, hpieces]
  unfold headChars listEnd
  rfl

/-- The text of the file determines what was reported: the timestamp, and each runtime with
its numbers. -/
theorem json_inj {first second : Report} (hjson : first.json = second.json) :
    currentIso8601 first.sinceEpoch = currentIso8601 second.sinceEpoch ∧
      first.runtimes = second.runtimes := by
  have hchars := congrArg String.toList hjson
  rw [Report.json, Report.json, toList_stateJson, toList_stateJson] at hchars
  have hquote : ∀ report : Report,
      ∀ char ∈ (currentIso8601 report.sinceEpoch).toList, (char != '"') = true := by
    intro report char hchar
    rw [currentIso8601, String.toList_ofList] at hchar
    exact CivilTime.not_quote _ char hchar
  obtain ⟨hts, hrest⟩ := append_cons_inj (hquote first) (hquote second) (by decide) (by decide)
    (List.append_cancel_left hchars)
  exact ⟨String.toList_inj.mp hts, runtimesJson_inj (List.append_cancel_left hrest)⟩

theorem Report.document_ne_nil (report : Report) : report.document ≠ [] := by
  intro hempty
  have hbytes : report.json.toByteArray = "".toByteArray :=
    ByteArray.ext (Array.toList_inj.mp hempty)
  have hchars := congrArg String.toList (String.toByteArray_inj.mp hbytes)
  rw [Report.json, toList_stateJson] at hchars
  exact List.cons_ne_nil _ _ hchars

theorem document_inj {first second : Report} :
    first.document = second.document ↔ first.json = second.json := by
  rw [Report.document, Report.document, Array.toList_inj, ← ByteArray.ext_iff,
    String.toByteArray_inj]

theorem currentIso8601_inj {first second : Report} (hfirst : first.secs < yearTenThousand)
    (hsecond : second.secs < yearTenThousand) :
    currentIso8601 first.sinceEpoch = currentIso8601 second.sinceEpoch ↔
      first.secs = second.secs := by
  rw [currentIso8601_eq _ hfirst, currentIso8601_eq _ hsecond, String.ofList_inj]
  exact strictMonoOn_chars.injOn.eq_iff hfirst hsecond

/-- Up to the year 9999 two files have the same bytes exactly when they report the same
runtimes in the same second: a reader that compares contents misses no change. -/
theorem document_eq_iff {first second : Report} (hfirst : first.secs < yearTenThousand)
    (hsecond : second.secs < yearTenThousand) :
    first.document = second.document ↔
      first.secs = second.secs ∧ first.runtimes = second.runtimes := by
  rw [document_inj]
  constructor
  · intro hjson
    obtain ⟨hts, hruntimes⟩ := json_inj hjson
    exact ⟨(currentIso8601_inj hfirst hsecond).mp hts, hruntimes⟩
  · rintro ⟨hsecs, hruntimes⟩
    rw [Report.json, Report.json, (currentIso8601_inj hfirst hsecond).mpr hsecs, hruntimes]

/-- Two runtimes, and one whose numbers read the same in a row. -/
theorem document_eq_iff_split :
    (⟨some 0, [⟨1, 2, 3⟩, ⟨4, 5, 6⟩]⟩ : Report).document =
        (⟨some 0, [⟨12, 3, 456⟩]⟩ : Report).document ↔
      (0 : ℕ) = 0 ∧ ([⟨1, 2, 3⟩, ⟨4, 5, 6⟩] : List RuntimeInfo) = [⟨12, 3, 456⟩] :=
  @document_eq_iff ⟨some 0, [⟨1, 2, 3⟩, ⟨4, 5, 6⟩]⟩ ⟨some 0, [⟨12, 3, 456⟩]⟩ (by decide)
    (by decide)

end FrogAgent.StateFile
