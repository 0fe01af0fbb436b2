import EventSource.Lib.Cut

/-!
# URI References

A reference is cut at its delimiters as in RFC 3986, Appendix B, resolved against a base as in
Section 5.2, and put together again as in Section 5.3. Whatever its path, a reference that names a
server, or none and no scheme, resolves to a text that names a server.
-/

namespace EventSource.UriReference

open EventSource.Cut

abbrev Text := List UInt8

/-! ## Delimiters -/

/-- `':'`. -/
def colon : UInt8 := 0x3A

/-- `'/'`. -/
def slash : UInt8 := 0x2F

/-- `'?'`. -/
def question : UInt8 := 0x3F

/-- `'#'`. -/
def hash : UInt8 := 0x23

/-- `'.'`. -/
def dot : UInt8 := 0x2E

def isSlash (b : UInt8) : Bool := b = slash
def isHash (b : UInt8) : Bool := b = hash
def stopsPath (b : UInt8) : Bool := b = question || b = hash
def stopsAuthority (b : UInt8) : Bool := b = slash || stopsPath b
def stopsScheme (b : UInt8) : Bool := b = colon || stopsAuthority b

/-! ## References and Their Texts -/

/-- The parts of a reference, without the delimiters. -/
structure Reference where
  scheme : Option Text
  authority : Option Text
  path : Text
  query : Option Text
  fragment : Option Text
  deriving DecidableEq, Repr

/-- The part behind the path. -/
def Reference.tail (r : Reference) : Text :=
  (match r.query with
    | some q => question :: q
    | none => []) ++
  match r.fragment with
    | some f => hash :: f
    | none => []

/-- The text of the parts. -/
def Reference.text (r : Reference) : Text :=
  (match r.scheme with
    | some s => s ++ [colon]
    | none => []) ++
  ((match r.authority with
    | some a => slash :: slash :: a
    | none => []) ++
  (r.path ++ r.tail))

def cutScheme (s : Text) : Option Text × Text :=
  match fromFirst stopsScheme s with
  | b :: rest =>
    if b = colon ∧ before stopsScheme s ≠ [] then (some (before stopsScheme s), rest) else (none, s)
  | [] => (none, s)

def cutAuthority : Text → Option Text × Text
  | b :: c :: rest =>
    if b = slash ∧ c = slash then (some (before stopsAuthority rest), fromFirst stopsAuthority rest)
    else (none, b :: c :: rest)
  | s => (none, s)

/-- The part behind `mark`, up to `stop`. -/
def cutMarked (mark : UInt8) (stop : UInt8 → Bool) : Text → Option Text × Text
  | b :: rest => if b = mark then (some (before stop rest), fromFirst stop rest) else (none, b :: rest)
  | [] => (none, [])

def parse (s : Text) : Reference :=
  let scheme := cutScheme s
  let authority := cutAuthority scheme.2
  let query := cutMarked question isHash (fromFirst stopsPath authority.2)
  { scheme := scheme.1
    authority := authority.1
    path := before stopsPath authority.2
    query := query.1
    fragment := (cutMarked hash (fun _ => false) query.2).1 }

/-! ## Dot Segments -/

/-- The last segment and the slash before it are removed. -/
def removeLast (out : Text) : Text :=
  (uptoLast isSlash out).dropLast

/-- The first segment, with the slash before it if there is one. -/
def firstSegment (input : Text) : Text :=
  input.take 1 ++ before isSlash (input.drop 1)

/-- One round of the loop of Section 5.2.4, on the output and the input. -/
def dotRound (out input : Text) : Text × Text :=
  if [dot, dot, slash] <+: input then (out, input.drop 3)
  else if [dot, slash] <+: input then (out, input.drop 2)
  else if [slash, dot, slash] <+: input then (out, input.drop 2)
  else if input = [slash, dot] then (out, [slash])
  else if [slash, dot, dot, slash] <+: input then (removeLast out, input.drop 3)
  else if input = [slash, dot, dot] then (removeLast out, [slash])
  else if input = [dot] ∨ input = [dot, dot] then (out, [])
  else (out ++ firstSegment input, fromFirst isSlash (input.drop 1))

/-- Every round makes the input shorter. -/
theorem dotRound_shorter {out input : Text} (h : input ≠ []) :
    (dotRound out input).2.length < input.length := by
  have hpos : 0 < input.length := List.length_pos_of_ne_nil h
  have hrest : (fromFirst isSlash (input.drop 1)).length < input.length := by
    have hcut := congrArg List.length (before_append_fromFirst isSlash (input.drop 1))
    rw [List.length_append, List.length_drop] at hcut
    omega
  -- every round drops a fixed number of bytes, or a whole segment
  have hdrop : ∀ n, 0 < n → (input.drop n).length < input.length := by
    intro n hn
    rw [List.length_drop]
    omega
  unfold dotRound
  split
  · exact hdrop 3 (by decide)
  · split
    · exact hdrop 2 (by decide)
    · split
      · exact hdrop 2 (by decide)
      · split
        · -- `/.` becomes `/`
          next heq =>
          rw [heq]
          show 1 < 2
          decide
        · split
          · exact hdrop 3 (by decide)
          · split
            · -- `/..` becomes `/`
              next heq =>
              rw [heq]
              show 1 < 3
              decide
            · split
              · exact hpos
              · exact hrest

/-- The loop. -/
def removeDotsFrom (out input : Text) : Text :=
  if h : input = [] then out
  else
    have := @dotRound_shorter out input h
    removeDotsFrom (dotRound out input).1 (dotRound out input).2
termination_by input.length

def removeDots (path : Text) : Text :=
  removeDotsFrom [] path

theorem begins_removeLast {out : Text} (h : Begins isSlash out) : Begins isSlash (removeLast out) := by
  have hupto : Begins isSlash (uptoLast isSlash out) := by
    apply @Begins.of_append _ _ _ (afterLast isSlash out)
    rw [uptoLast_append_afterLast]
    exact h
  obtain ⟨last, hlast⟩ : ∃ last, (uptoLast isSlash out).dropLast ++ last = uptoLast isSlash out :=
    (List.dropLast_prefix _)
  apply @Begins.of_append _ _ _ last
  show Begins isSlash ((uptoLast isSlash out).dropLast ++ last)
  rw [hlast]
  exact hupto

/-- A round leaves slashes at the beginning. -/
theorem begins_dotRound {out input : Text} (hout : Begins isSlash out) (hin : Begins isSlash input) :
    Begins isSlash (dotRound out input).1 ∧ Begins isSlash (dotRound out input).2 := by
  have hslash : ∀ {b : UInt8} {l : Text}, [b] ++ l <+: input → b = slash := by
    rintro b l ⟨rest, rfl⟩
    exact of_decide_eq_true (hin b rfl)
  -- the input begins with a slash, so the first two rounds do not apply
  have hdot : ∀ {l : Text}, ¬ dot :: l <+: input := fun hpre => absurd (hslash hpre) (by decide)
  unfold dotRound
  rw [if_neg hdot, if_neg hdot]
  split
  · next hpre =>
    obtain ⟨rest, rfl⟩ := hpre
    exact ⟨hout, fun b hb => hin b hb⟩
  · split
    · next heq =>
      subst heq
      exact ⟨hout, fun b hb => hin b hb⟩
    · split
      · next hpre =>
        obtain ⟨rest, rfl⟩ := hpre
        exact ⟨begins_removeLast hout, fun b hb => hin b hb⟩
      · split
        · next heq =>
          subst heq
          exact ⟨begins_removeLast hout, fun b hb => hin b hb⟩
        · split
          · exact ⟨hout, begins_nil _⟩
          · -- a segment moves to the output, with the slash before it
            refine ⟨hout.append ?_, begins_fromFirst isSlash _⟩
            cases input with
            | nil => exact begins_nil _
            | cons b input => exact hin

/-- **A rooted path stays rooted.** -/
theorem begins_removeDots {path : Text} (h : Begins isSlash path) :
    Begins isSlash (removeDots path) := by
  have hloop : ∀ out input, Begins isSlash out → Begins isSlash input →
      Begins isSlash (removeDotsFrom out input) := by
    intro out input
    induction out, input using removeDotsFrom.induct with
    | case1 out =>
      intro hout _
      rw [removeDotsFrom, dif_pos rfl]
      exact hout
    | case2 out input hne _ ih =>
      intro hout hin
      obtain ⟨hout', hin'⟩ := begins_dotRound hout hin
      rw [removeDotsFrom, dif_neg hne]
      exact ih hout' hin'
  exact hloop [] path (begins_nil _) h

/-- `/a/./../g` becomes `/g`. -/
example : removeDots [slash, 0x61, slash, dot, slash, dot, dot, slash, 0x67] = [slash, 0x67] := by
  decide +kernel

/-! ## Resolution -/

/-- Section 5.2.3. -/
def merge (base r : Reference) : Text :=
  if base.authority.isSome ∧ base.path = [] then slash :: r.path
  else uptoLast isSlash base.path ++ r.path

/-- Section 5.2.2, without the leniency towards a repeated scheme. -/
def resolve (base r : Reference) : Reference :=
  if r.scheme.isSome then { r with path := removeDots r.path }
  else if r.authority.isSome then { r with scheme := base.scheme, path := removeDots r.path }
  else if r.path = [] then
    { base with
      query := if r.query.isSome then r.query else base.query
      fragment := r.fragment }
  else
    { base with
      path := removeDots (if r.path.head? = some slash then r.path else merge base r)
      query := r.query
      fragment := r.fragment }

/-- The text that a reference resolves to. -/
def resolveText (base r : Text) : Text :=
  (resolve (parse base) (parse r)).text

/-! ## The Server -/

/-- A scheme and an authority with a rooted path behind them. -/
structure Reference.Server (r : Reference) (scheme authority : Text) : Prop where
  scheme : r.scheme = some scheme
  authority : r.authority = some authority
  path : Begins isSlash r.path

theorem begins_tail (r : Reference) : Begins stopsAuthority r.tail := by
  intro b hb
  unfold Reference.tail at hb
  cases hq : r.query with
  | some q =>
    rw [hq] at hb
    obtain rfl : question = b := Option.some.inj hb
    rfl
  | none =>
    cases hf : r.fragment with
    | some f =>
      rw [hq, hf] at hb
      obtain rfl : hash = b := Option.some.inj hb
      rfl
    | none =>
      rw [hq, hf] at hb
      cases hb

/-- What follows the authority cannot be taken for a part of it. -/
theorem Reference.Server.text {r : Reference} {scheme authority : Text}
    (h : r.Server scheme authority) :
    ∃ rest, r.text = scheme ++ [colon, slash, slash] ++ (authority ++ rest) ∧
      Begins stopsAuthority rest := by
  have hpath : Begins stopsAuthority r.path := by
    intro b hb
    obtain rfl := of_decide_eq_true (h.path b hb)
    rfl
  refine ⟨r.path ++ r.tail, ?_, hpath.append (begins_tail r)⟩
  unfold Reference.text
  rw [h.scheme, h.authority]
  simp

theorem begins_merge {base : Reference} {scheme authority : Text} (h : base.Server scheme authority)
    (r : Reference) : Begins isSlash (merge base r) := by
  unfold merge
  split
  · intro b hb
    obtain rfl : slash = b := Option.some.inj hb
    rfl
  · next hpath =>
    have hne : base.path ≠ [] := fun hnil => hpath ⟨by rw [h.authority]; rfl, hnil⟩
    obtain ⟨b, path, hcons⟩ := List.exists_cons_of_ne_nil hne
    have hb : isSlash b = true := h.path b (by rw [hcons]; rfl)
    have happend := uptoLast_append_afterLast isSlash base.path
    -- the part up to the last slash is not empty, because the first byte is a slash
    cases hupto : uptoLast isSlash base.path with
    | nil =>
      rw [hupto, List.nil_append] at happend
      have hmem : b ∈ afterLast isSlash base.path := by
        rw [happend, hcons]
        exact List.mem_cons_self ..
      exact absurd (hb.symm.trans (stop_afterLast hmem)) (by decide)
    | cons c upto =>
      rw [hupto, hcons] at happend
      obtain rfl : c = b := (List.cons.inj happend).1
      intro a ha
      obtain rfl : c = a := Option.some.inj ha
      exact hb

/-- **A reference without a scheme and a server resolves to the server of its base.** -/
theorem resolve_relative {base r : Reference} {scheme authority : Text}
    (hbase : base.Server scheme authority) (hscheme : r.scheme = none)
    (hauthority : r.authority = none) : (resolve base r).Server scheme authority := by
  unfold resolve
  rw [hscheme, hauthority, if_neg (by simp), if_neg (by simp)]
  split
  · exact ⟨hbase.scheme, hbase.authority, hbase.path⟩
  · refine ⟨hbase.scheme, hbase.authority, begins_removeDots ?_⟩
    split
    · next hhead =>
      intro b hb
      obtain rfl := Option.some.inj (hhead.symm.trans (Option.mem_def.mp hb))
      rfl
    · exact begins_merge hbase r

/-- **A reference with a scheme and a server keeps them.** -/
theorem resolve_absolute {r : Reference} {scheme authority : Text} (h : r.Server scheme authority)
    (base : Reference) : (resolve base r).Server scheme authority := by
  unfold resolve
  rw [if_pos (by rw [h.scheme]; rfl)]
  exact ⟨h.scheme, h.authority, begins_removeDots h.path⟩

/-! ## Parsing a Server -/

theorem begins_parse_path {s : Text} (h : Begins stopsAuthority s) :
    Begins isSlash (before stopsPath s) := by
  intro b hb
  have hhead : s.head? = some b := by
    have happend := before_append_fromFirst stopsPath s
    cases hbefore : before stopsPath s with
    | nil =>
      rw [hbefore] at hb
      cases hb
    | cons c l =>
      rw [hbefore] at hb happend
      rw [← happend]
      exact hb
  have hstops := h b hhead
  have hpath : stopsPath b = false := stop_before (List.mem_of_mem_head? hb)
  unfold stopsAuthority at hstops
  rw [hpath, Bool.or_false] at hstops
  exact hstops

/-- The scheme and the authority of a text that has both. -/
theorem parse_server {scheme : Text} (hne : scheme ≠ []) (hscheme : ∀ b ∈ scheme, stopsScheme b = false)
    (rest : Text) :
    (parse (scheme ++ [colon, slash, slash] ++ rest)).Server scheme (before stopsAuthority rest) := by
  -- the scheme ends at the first colon
  have hcut : cutScheme (scheme ++ [colon, slash, slash] ++ rest) =
      (some scheme, slash :: slash :: rest) := by
    have htext : scheme ++ [colon, slash, slash] ++ rest = scheme ++ colon :: slash :: slash :: rest := by
      simp
    obtain ⟨hbefore, hfrom⟩ := @cut_append _ stopsScheme scheme (colon :: slash :: slash :: rest) hscheme
      (by
        intro b hb
        obtain rfl : colon = b := Option.some.inj hb
        rfl)
    unfold cutScheme
    rw [htext, hfrom, hbefore]
    exact if_pos ⟨rfl, hne⟩
  -- the two slashes announce an authority
  have hauthority : cutAuthority (slash :: slash :: rest) =
      (some (before stopsAuthority rest), fromFirst stopsAuthority rest) := by
    unfold cutAuthority
    exact if_pos ⟨rfl, rfl⟩
  unfold parse
  rw [hcut]
  simp only [hauthority]
  exact ⟨rfl, rfl, begins_parse_path (begins_fromFirst stopsAuthority rest)⟩

/-- A single slash at the beginning leaves no room for a scheme and a server. -/
theorem parse_rooted {s : Text} (hhead : s.head? = some slash) (hnext : s[1]? ≠ some slash) :
    (parse s).scheme = none ∧ (parse s).authority = none := by
  obtain ⟨b, s, rfl⟩ : ∃ b t, s = b :: t := by
    cases s with
    | nil => cases hhead
    | cons b t => exact ⟨b, t, rfl⟩
  obtain rfl : b = slash := Option.some.inj hhead
  -- a slash comes before any colon
  have hcut : cutScheme (slash :: s) = (none, slash :: s) := by
    have hfrom : fromFirst stopsScheme (slash :: s) = slash :: s := rfl
    unfold cutScheme
    rw [hfrom]
    exact if_neg fun h => absurd h.1 (by decide)
  have hauthority : cutAuthority (slash :: s) = (none, slash :: s) := by
    cases s with
    | nil => rfl
    | cons c s =>
      refine if_neg fun h => hnext ?_
      rw [← h.2]
      rfl
  unfold parse
  rw [hcut]
  refine ⟨rfl, ?_⟩
  show (cutAuthority (slash :: s)).1 = none
  rw [hauthority]

end EventSource.UriReference
