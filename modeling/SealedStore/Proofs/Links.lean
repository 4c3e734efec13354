import SealedStore.Client.Basic
import SealedStore.Proofs.Escapes
/-!
# What a link says

The signed text of a link has a free text, the verb, in front of the second and
the address, so it is taken apart from its end. An escaped key has no line break,
which leaves the last breaks of the text to the bucket, and the break before
them ends the second; a second has no line break either. Two requests on one
bucket that are signed alike are therefore the same but for the case of the verb
and for the part of the second that the instant has.

The link itself is cut at its last question mark, since a query has none. In
front of it stands the address, behind it all that was signed with and under.

A moment that falls out of the calendar in universal time has no second, and so
no link.

What is proved:
  1. `Text.CutAtLast.unique`, `Text.append_middle_inj` — texts that are taken
     apart from their end.
  2. `LinkRequest.eq_of_signedText` — what a signed text determines.
  3. `LinkRequest.cutAtLast_linkUntil` — where a link is cut.
  4. `Client.link_binds_request` — every link binds its request and says what it
     is, and which requests have one.
-/

namespace SealedStore

namespace Text

/-! ## Cutting at the last separator -/

/-- A text in two parts, what is in front of its last separator and what is
behind it. -/
structure CutAtLast (separator : Char) (text front back : List Char) : Prop where
  eq : text = front ++ separator :: back
  last : separator ∉ back

variable {separator : Char} {text front back front' back' : List Char}

theorem CutAtLast.reverse_back (h : CutAtLast separator text front back) :
    text.reverse.takeWhile (· != separator) = back.reverse := by
  have hback : ∀ c ∈ back.reverse, (c != separator) = true := fun c hc =>
    bne_iff_ne.mpr fun he => h.last (he ▸ List.mem_reverse.mp hc)
  rw [h.eq, List.reverse_append, List.reverse_cons, List.append_assoc, List.singleton_append,
    List.takeWhile_append_of_pos hback, List.takeWhile_cons_of_neg (by simp), List.append_nil]

theorem CutAtLast.unique (h : CutAtLast separator text front back) (h' : CutAtLast separator text front' back') :
    front = front' ∧ back = back' := by
  -- Read backwards, a text is cut at its first separator.
  have hback : back = back' := List.reverse_inj.mp (h.reverse_back.symm.trans h'.reverse_back)
  subst hback
  exact ⟨List.append_cancel_right (h.eq.symm.trans h'.eq), rfl⟩

theorem exists_cutAtLast (h : separator ∈ text) : ∃ front back, CutAtLast separator text front back := by
  obtain ⟨back, front, heq, hback⟩ := List.eq_append_cons_of_mem (List.mem_reverse.mpr h)
  refine ⟨front.reverse, back.reverse, ?_, fun hb => hback (List.mem_reverse.mp hb)⟩
  rw [← List.reverse_reverse text, heq, List.reverse_append, List.reverse_cons, List.append_assoc,
    List.singleton_append]

/-- Around a middle with a separator, texts are told apart whose ends have none. -/
theorem append_middle_inj {middle : List Char} (hmiddle : separator ∈ middle) (hback : separator ∉ back)
    (hback' : separator ∉ back') (h : front ++ middle ++ back = front' ++ middle ++ back') :
    front = front' ∧ back = back' := by
  obtain ⟨before, after, hcut⟩ := exists_cutAtLast hmiddle
  -- the last separator of the whole is the last one of the middle
  have hwhole : ∀ f b : List Char, separator ∉ b →
      CutAtLast separator (f ++ middle ++ b) (f ++ before) (after ++ b) := fun f b hb =>
    { eq := by
        rw [hcut.eq]
        simp only [List.append_assoc, List.cons_append]
      last := by
        rw [List.mem_append, not_or]
        exact ⟨hcut.last, hb⟩ }
  obtain ⟨hfront, hend⟩ := (hwhole front back hback).unique (h ▸ hwhole front' back' hback')
  exact ⟨List.append_cancel_right hfront, List.append_cancel_left hend⟩

end Text

namespace LinkRequest

/-! ## The signed text -/

theorem toList_toString_int : ∀ n : Int, (toString n).toList =
    if n < 0 then '-' :: Nat.toDigits 10 n.natAbs else Nat.toDigits 10 n.natAbs
  | .ofNat k => by
    rw [if_neg (Int.not_lt.mpr (Int.natCast_nonneg k) : ¬Int.ofNat k < 0)]
    exact Nat.toList_repr
  | .negSucc k => by
    rw [if_pos (Int.negSucc_lt_zero k)]
    show ("-" ++ Nat.repr (k + 1)).toList = '-' :: Nat.toDigits 10 (k + 1)
    rw [String.toList_append, Nat.toList_repr]
    rfl

theorem isDigit_of_mem_toDigits {k : Nat} {c : Char} (h : c ∈ Nat.toDigits 10 k) : c.isDigit = true :=
  Nat.isDigit_of_mem_toDigits (by decide) (by decide) h

theorem toString_int_injective {m n : Int} (h : toString m = toString n) : m = n := by
  have hlist := congrArg String.toList h
  rw [toList_toString_int, toList_toString_int] at hlist
  have hminus : ∀ k : Nat, '-' ∉ Nat.toDigits 10 k := fun k hk =>
    absurd (isDigit_of_mem_toDigits hk) (by decide)
  have habs : ∀ {i j : Nat}, Nat.toDigits 10 i = Nat.toDigits 10 j → i = j := fun {i j} hij => by
    rw [← @Nat.ofDigitChars_ten_toDigits i, hij, Nat.ofDigitChars_ten_toDigits]
  -- a sign in front of one number alone would be one of the other's digits
  split at hlist <;> split at hlist
  · have := habs (List.cons.inj hlist).2
    omega
  · exact absurd (hlist ▸ List.mem_cons_self) (hminus _)
  · exact absurd (hlist.symm ▸ List.mem_cons_self) (hminus _)
  · have := habs hlist
    omega

theorem newline_notMem_toString (n : Int) : '\n' ∉ (toString n).toList := by
  have hdigits : '\n' ∉ Nat.toDigits 10 n.natAbs := fun h => absurd (isDigit_of_mem_toDigits h) (by decide)
  rw [toList_toString_int]
  split
  · rw [List.mem_cons, not_or]
    exact ⟨by decide, hdigits⟩
  · exact hdigits

theorem newline_notMem_encodePath (key : String) : '\n' ∉ (Percent.encodePath key).toList :=
  Percent.notMem_encodePath (by decide) (by decide) key

/-- The parts of a signed text: what depends on verb and second, what is the
same on one bucket, and the escaped key. -/
theorem toList_signedText (r : LinkRequest) (second : Int) : (r.signedText second).toList =
    ((Text.upper r.method).toList ++ "\n\n\n".toList ++ (toString second).toList) ++
      ("\n/" ++ r.target.bucket ++ "/").toList ++ (Percent.encodePath r.target.key).toList := by
  rw [← String.toList_append, ← String.toList_append, ← String.toList_append, ← String.toList_append]
  refine congrArg String.toList ?_
  simp only [signedText, resource, String.append_assoc]
  rfl

/-- Requests on one bucket that are signed alike are alike. -/
theorem eq_of_signedText {r r' : LinkRequest} {second second' : Int}
    (hbucket : r.target.bucket = r'.target.bucket) (h : r.signedText second = r'.signedText second') :
    Text.upper r.method = Text.upper r'.method ∧ second = second' ∧ r.target.key = r'.target.key := by
  have hlist := congrArg String.toList h
  rw [toList_signedText, toList_signedText, hbucket] at hlist
  -- the escaped key first, then the second, and the verb is what is left
  have hbreak : '\n' ∈ ("\n/" ++ r'.target.bucket ++ "/").toList := by
    rw [String.toList_append, String.toList_append]
    exact List.mem_append_left _ (List.mem_append_left _ List.mem_cons_self)
  obtain ⟨hhead, hkey⟩ := Text.append_middle_inj hbreak (newline_notMem_encodePath _)
    (newline_notMem_encodePath _) hlist
  obtain ⟨hmethod, hsecond⟩ := Text.append_middle_inj List.mem_cons_self (newline_notMem_toString _)
    (newline_notMem_toString _) hhead
  exact ⟨String.toList_injective hmethod, toString_int_injective (String.toList_injective hsecond),
    Percent.encodePath_injective (String.toList_injective hkey)⟩

/-! ## The link -/

theorem cutAtLast_linkUntil (s : LinkSigner) (r : LinkRequest) (second : Int) :
    Text.CutAtLast '?' (r.linkUntil s second).toList (s.endpoint ++ r.resource).toList
      (Percent.query (r.parameters s second)).toList where
  eq := by
    rw [linkUntil, String.toList_append, String.toList_append, List.append_assoc]
    rfl
  last := Percent.notMem_query (by decide) (by decide) (by decide) (by decide) _

variable {r : LinkRequest} {ahead : Int}

theorem second_eq (hahead : r.expiration.ahead = .ok ahead)
    (hvalid : inCalendar (r.expiration.wall - ahead) = true) :
    r.second = .ok (expirySeconds (r.expiration.wall - ahead)) := by
  unfold second Moment.instant
  rw [hahead]
  show Except.map expirySeconds (if inCalendar (r.expiration.wall - ahead) = true then _ else _) = _
  rw [if_pos hvalid]
  rfl

/-- No second belongs to a moment that the calendar does not have in universal time. -/
theorem second_beyond (hahead : r.expiration.ahead = .ok ahead)
    (hbeyond : inCalendar (r.expiration.wall - ahead) = false) : r.second = .error (.overflow .date) := by
  unfold second Moment.instant
  rw [hahead]
  show Except.map expirySeconds (if inCalendar (r.expiration.wall - ahead) = true then _ else _) = _
  rw [if_neg (Bool.not_eq_true _ ▸ hbeyond)]
  rfl

theorem second_unknown {fault : ValueFault} (hahead : r.expiration.ahead = .error fault) :
    r.second = .error (.value fault) := by
  unfold second Moment.instant
  rw [hahead]
  rfl

end LinkRequest

namespace Client
open LinkRequest (expirySeconds)

theorem link_eq {c : Client} {accessKey secretKey : String} (haccess : c.settings.accessKey = some accessKey)
    (hsecret : c.settings.secretKey = some secretKey) (haccess' : accessKey ≠ "") (hsecret' : secretKey ≠ "")
    (r : LinkRequest) : c.link r = r.second.map (r.linkUntil ⟨c.settings.endpoint, accessKey, secretKey⟩) := by
  have hsigner : c.settings.signer? = some ⟨c.settings.endpoint, accessKey, secretKey⟩ := by
    simp [ClientSettings.signer?, haccess, hsecret, haccess', hsecret', Option.filter]
  unfold link
  rw [hsigner]
  rfl

/-- A link binds its request and says what it is. For every client with keys that
are not empty: if the texts are equal that are signed for two requests on one
bucket, so are their verbs in upper case, their seconds and their keys. And there
is a link for every request whose moment the calendar has in universal time. Cut at
its last question mark it has in front the endpoint and the signed address, of which
the part behind the bucket stands for the key, and behind it a query that stands for
the access key, the second and the signature of the signed text. The other requests
have no link: either the calendar ends before their moment, or their moment cannot
be told in universal time. -/
theorem link_binds_request (c : Client) {accessKey secretKey : String}
    (haccess : c.settings.accessKey = some accessKey) (hsecret : c.settings.secretKey = some secretKey)
    (haccess' : accessKey ≠ "") (hsecret' : secretKey ≠ "") :
    (∀ (r r' : LinkRequest) (second second' : Int), r.second = .ok second → r'.second = .ok second' →
      r.target.bucket = r'.target.bucket → r.signedText second = r'.signedText second' →
      Text.upper r.method = Text.upper r'.method ∧ second = second' ∧ r.target.key = r'.target.key) ∧
    (∀ (r : LinkRequest) (ahead : Int), r.expiration.ahead = .ok ahead →
      inCalendar (r.expiration.wall - ahead) = true →
      let second := expirySeconds (r.expiration.wall - ahead)
      r.second = .ok second ∧ ∃ url path query : String, c.link r = .ok url ∧
        Text.CutAtLast '?' url.toList (c.settings.endpoint ++ r.resource).toList query.toList ∧
        r.signedText second = Text.upper r.method ++ "\n\n\n" ++ toString second ++ "\n" ++ r.resource ∧
        r.resource = "/" ++ r.target.bucket ++ "/" ++ path ∧ Percent.decode? path = some r.target.key ∧
        Percent.entries? query = some [("AWSAccessKeyId", accessKey), ("Expires", toString second),
          ("Signature",
            Base64.encode (hmac .sha1 (Bytes.ofText secretKey) (Bytes.ofText (r.signedText second))))]) ∧
    (∀ (r : LinkRequest) (ahead : Int), r.expiration.ahead = .ok ahead →
      inCalendar (r.expiration.wall - ahead) = false → c.link r = .error (.overflow .date)) ∧
    ∀ (r : LinkRequest) (fault : ValueFault), r.expiration.ahead = .error fault →
      c.link r = .error (.value fault) := by
  have hlink := link_eq haccess hsecret haccess' hsecret'
  refine ⟨fun r r' _ _ _ _ => LinkRequest.eq_of_signedText, fun r ahead hahead hvalid => ?_,
    fun r ahead hahead hbeyond => ?_, fun r fault hahead => ?_⟩
  · let signer : LinkSigner := ⟨c.settings.endpoint, accessKey, secretKey⟩
    have hsecond := LinkRequest.second_eq hahead hvalid
    exact ⟨hsecond, _, Percent.encodePath r.target.key, Percent.query (r.parameters signer _),
      by rw [hlink, hsecond]; rfl, LinkRequest.cutAtLast_linkUntil signer r _, rfl, rfl,
      Percent.decode?_encodePath _, Percent.entries?_query (List.cons_ne_nil _ _)⟩
  · rw [hlink, LinkRequest.second_beyond hahead hbeyond]
    rfl
  · rw [hlink, LinkRequest.second_unknown hahead]
    rfl

/-- A bucket, a key, an endpoint and an access key that hold the marks of links
themselves. Two requests for this key that differ in the case of the verb, in the
zone of the clock and in the part of a second are signed alike. -/
theorem link_binds_request_marks :
    let c : Client := { settings :=
      { endpoint := "http://store/?", accessKey := some "you&me=?+", secretKey := some "secret" } }
    let near : Moment := { wall := 1999999, ahead := .ok 0, valid := by decide +kernel }
    let far : Moment := { wall := 3601000000, ahead := .ok 3600000000, valid := by decide +kernel }
    let r (method : String) (expiration : Moment) : LinkRequest := ⟨method, ⟨"a\nb?", "100%/ü?\n"⟩, expiration⟩
    (r "get" near).second = .ok 1 ∧ (r "GET" far).second = .ok 1 ∧
    (r "get" near).signedText 1 = (r "GET" far).signedText 1 ∧ Text.upper "get" = Text.upper "GET" ∧
    ∃ url path query : String, c.link (r "GET" far) = .ok url ∧
      Text.CutAtLast '?' url.toList ("http://store/?" ++ (r "GET" far).resource).toList query.toList ∧
      (r "GET" far).resource = "/" ++ "a\nb?" ++ "/" ++ path ∧ Percent.decode? path = some "100%/ü?\n" ∧
      Percent.entries? query = some [("AWSAccessKeyId", "you&me=?+"), ("Expires", "1"),
        ("Signature", Base64.encode (hmac .sha1 (Bytes.ofText "secret")
          (Bytes.ofText ((r "GET" far).signedText 1))))] := by
  intro c near far r
  obtain ⟨hbinds, hsays, -⟩ := link_binds_request c rfl rfl (by decide) (by decide)
  obtain ⟨hnear, -⟩ := hsays (r "get" near) 0 rfl (by decide +kernel)
  obtain ⟨hfar, url, path, query, hurl, hcut, -, hresource, hpath, hquery⟩ :=
    hsays (r "GET" far) 3600000000 rfl (by decide +kernel)
  have hone : expirySeconds ((r "GET" far).expiration.wall - 3600000000) = 1 := by decide +kernel
  rw [show expirySeconds ((r "get" near).expiration.wall - 0) = 1 by decide +kernel] at hnear
  rw [hone] at hfar hquery
  have hsigned : (r "get" near).signedText 1 = (r "GET" far).signedText 1 := by
    have hmethod : Text.upper "get" = Text.upper "GET" := by decide +kernel
    simp only [r, LinkRequest.signedText, hmethod]
    rfl
  obtain ⟨hmethod, -, -⟩ := hbinds (r "get" near) (r "GET" far) 1 1 hnear hfar rfl hsigned
  exact ⟨hnear, hfar, hsigned, hmethod, url, path, query, hurl, hcut, hresource, hpath, hquery⟩

/-- In the last hour of the calendar of a clock that is an hour behind, no link can
be made. -/
theorem no_link_at_calendar_end :
    let c : Client := { settings := { accessKey := some "key", secretKey := some "secret" } }
    let last : Moment := { wall := 253402299000000000, ahead := .ok (-3600000000), valid := by decide +kernel }
    let r : LinkRequest := ⟨"GET", ⟨"bucket", "doc"⟩, last⟩
    c.link r = .error (.overflow .date) ∧ ∀ url, c.link r ≠ .ok url := by
  intro c last r
  have hlink : c.link r = .error (.overflow .date) := by
    rw [link_eq rfl rfl (by decide) (by decide), LinkRequest.second_beyond rfl (by decide +kernel)]
    rfl
  exact ⟨hlink, fun url => hlink ▸ nofun⟩

end Client

end SealedStore
