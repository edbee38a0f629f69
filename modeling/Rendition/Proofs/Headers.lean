import Rendition.Http.Response
import Rendition.Proofs.HttpDates
import Rendition.Proofs.Modified
import Rendition.Proofs.Repetition
import Rendition.Proofs.Settings

/-!
# Rendition.Proofs.Headers

The dates in the headers of an answer. An answer is built from three of them: when its source was
modified, when it was given and, so many seconds later, when it expires. Each of them has to be in a
year that can be written, and nothing else can keep an answer from being built
(`Http.Response.exists_ofServed?_iff`).

As dates are read back as they were written, the date of an answer and that of its expiry are as far
apart as it may be kept (`header_dates_keep_time`). How long that is comes from the configuration,
which has no limit for it, and when a source was modified from the file system, which has one far
beyond the last year that can be written (`response_built_iff`).
-/

namespace Rendition

open Time Http

/-! ### Later points of time -/

namespace Time.Timestamp

variable {now later : Timestamp} {seconds : UInt64}

/-- Whole seconds later it is so many seconds more. -/
theorem second_of_add? (h : now.add? (.ofSeconds seconds) = some later) :
    later.second = now.second + seconds.toNat := by
  have hnanos : later.nanos = now.nanos + (seconds.toNat * nanosPerSecond : Nat) := nanos_of_add? h
  unfold second
  rw [Int.fdiv_eq_ediv_of_nonneg _ (by decide), Int.fdiv_eq_ediv_of_nonneg _ (by decide), hnanos]
  unfold nanosPerSecond
  omega

/-- A second that can be written is far from the end of time. -/
theorem exists_add? (h : now.second + seconds.toNat ≤ 8210266876799) :
    ∃ later, now.add? (.ofSeconds seconds) = some later := by
  have hrange : InEpochRange (now.nanos + (Duration.ofSeconds seconds).nanos) := by
    have hlow := now.inRange.1
    unfold second at h
    rw [Int.fdiv_eq_ediv_of_nonneg _ (by decide)] at h
    unfold InEpochRange Duration.ofSeconds nanosPerSecond at *
    dsimp only
    omega
  exact ⟨_, dif_pos hrange⟩

end Time.Timestamp

/-! ### Building an answer -/

namespace Http.Response

variable {served : Served} {maxAge : UInt64} {now : Timestamp}

theorem ofServed?_eq_some {response : Response} :
    ofServed? served maxAge now = some response ↔ ∃ modified freshness,
      modifiedHeader? served.lastModified = some modified ∧
      freshnessHeaders? maxAge now = some freshness ∧
      response =
        { status := 200
          headers := [("content-type", served.contentType)] ++ lengthHeader served.body
            ++ served.etag?.toList.map (("etag", ·)) ++ modified ++ freshness
          body := served.body } := by
  simp only [ofServed?, Option.bind_eq_bind, Option.bind_eq_some_iff, Option.some.injEq]
  constructor
  · rintro ⟨modified, hmodified, freshness, hfreshness, rfl⟩
    exact ⟨modified, freshness, hmodified, hfreshness, rfl⟩
  · rintro ⟨modified, freshness, hmodified, hfreshness, rfl⟩
    exact ⟨modified, hmodified, freshness, hfreshness, rfl⟩

theorem freshnessHeaders?_eq_some (hne : maxAge ≠ 0) {headers : List (String × String)} :
    freshnessHeaders? maxAge now = some headers ↔ ∃ later date expires,
      now.add? (.ofSeconds maxAge) = some later ∧ httpDate? now = some date ∧
      httpDate? later = some expires ∧
      headers = [("cache-control", "public, max-age=" ++ toString maxAge.toNat),
        ("expires", expires), ("date", date)] := by
  simp only [freshnessHeaders?, if_neg hne, dateHeader?, Option.bind_eq_bind,
    Option.bind_eq_some_iff, Option.map_eq_some_iff, Option.some.injEq]
  constructor
  · rintro ⟨later, hlater, _, ⟨expires, hexpires, rfl⟩, _, ⟨date, hdate, rfl⟩, rfl⟩
    exact ⟨later, date, expires, hlater, hdate, hexpires, rfl⟩
  · rintro ⟨later, date, expires, hlater, hdate, hexpires, rfl⟩
    exact ⟨later, hlater, _, ⟨expires, hexpires, rfl⟩, _, ⟨date, hdate, rfl⟩, rfl⟩

theorem exists_modifiedHeader?_iff {lastModified : Option Timestamp} :
    (∃ modified, modifiedHeader? lastModified = some modified) ↔
      ∀ t, lastModified = some t → t.IsWritable := by
  cases lastModified with
  | none => simp [modifiedHeader?]
  | some t =>
      by_cases h : t.IsWritable
      · simp [modifiedHeader?, dateHeader?, Timestamp.httpDate?_of_isWritable h, h]
      · simp [modifiedHeader?, dateHeader?, Timestamp.httpDate?_eq_none h, h]

theorem exists_freshnessHeaders?_iff :
    (∃ freshness, freshnessHeaders? maxAge now = some freshness) ↔
      (maxAge = 0 ∨ now.IsWritable ∧ now.second + maxAge.toNat ≤ 8210266876799) := by
  by_cases hne : maxAge = 0
  · simp [freshnessHeaders?, hne]
  · simp only [freshnessHeaders?_eq_some hne, hne, false_or]
    constructor
    · rintro ⟨_, later, date, expires, hlater, hdate, hexpires, -⟩
      have hnow : now.IsWritable := by
        by_contra h
        rw [Timestamp.httpDate?_eq_none h] at hdate
        cases hdate
      have hend : later.IsWritable := by
        by_contra h
        rw [Timestamp.httpDate?_eq_none h] at hexpires
        cases hexpires
      exact ⟨hnow, Timestamp.second_of_add? hlater ▸ hend.2⟩
    · rintro ⟨hnow, hle⟩
      obtain ⟨later, hlater⟩ := Timestamp.exists_add? hle
      have hend : later.IsWritable := by
        have hsecond := Timestamp.second_of_add? hlater
        have hfirst := hnow.1
        unfold Timestamp.IsWritable
        omega
      exact ⟨_, later, _, _, hlater, Timestamp.httpDate?_of_isWritable hnow,
        Timestamp.httpDate?_of_isWritable hend, rfl⟩

/-- An answer is built if and only if its dates are in years that can be written. -/
theorem exists_ofServed?_iff :
    (∃ response, ofServed? served maxAge now = some response) ↔
      (∀ t, served.lastModified = some t → t.IsWritable) ∧
      (maxAge = 0 ∨ now.IsWritable ∧ now.second + maxAge.toNat ≤ 8210266876799) := by
  rw [← exists_modifiedHeader?_iff, ← exists_freshnessHeaders?_iff]
  simp only [ofServed?_eq_some]
  constructor
  · rintro ⟨_, modified, freshness, hmodified, hfreshness, -⟩
    exact ⟨⟨modified, hmodified⟩, ⟨freshness, hfreshness⟩⟩
  · rintro ⟨⟨modified, hmodified⟩, ⟨freshness, hfreshness⟩⟩
    exact ⟨_, modified, freshness, hmodified, hfreshness, rfl⟩

theorem name_of_mem_modifiedHeader? {lastModified : Option Timestamp}
    {modified : List (String × String)} (h : modifiedHeader? lastModified = some modified)
    {header : String × String} (hheader : header ∈ modified) : header.1 = "last-modified" := by
  cases lastModified with
  | none =>
      obtain rfl := Option.some.inj h
      cases hheader
  | some t =>
      obtain ⟨_, hdate, rfl⟩ := Option.map_eq_some_iff.1 h
      obtain ⟨_, -, rfl⟩ := Option.map_eq_some_iff.1 hdate
      rw [List.mem_singleton.1 hheader]

/-- The dates of an answer that may be kept. -/
theorem lookup_ofServed? (hne : maxAge ≠ 0) {response : Response}
    (h : ofServed? served maxAge now = some response) : ∃ later date expires,
      now.add? (.ofSeconds maxAge) = some later ∧ httpDate? now = some date ∧
      httpDate? later = some expires ∧ response.headers.lookup "date" = some date ∧
      response.headers.lookup "expires" = some expires := by
  obtain ⟨modified, freshness, hmodified, hfreshness, rfl⟩ := ofServed?_eq_some.1 h
  obtain ⟨later, date, expires, hlater, hdate, hexpires, rfl⟩ :=
    (freshnessHeaders?_eq_some hne).1 hfreshness
  -- The headers in front have other names.
  have hfront : ∀ name ∈ ["date", "expires"], ([("content-type", served.contentType)]
      ++ lengthHeader served.body ++ served.etag?.toList.map (("etag", ·)) ++ modified).lookup name
        = none := by
    intro name hname
    refine List.lookup_eq_none_iff.2 fun header hheader => ?_
    have hother : header.1 ∈ ["content-type", "content-length", "etag", "last-modified"] := by
      simp only [List.mem_append, List.mem_map, List.mem_singleton, lengthHeader] at hheader
      rcases hheader with ((rfl | ⟨_, -, rfl⟩) | ⟨_, -, rfl⟩) | hheader
      · simp
      · simp
      · simp
      · simp [name_of_mem_modifiedHeader? hmodified hheader]
    have hdistinct : ∀ name ∈ ["date", "expires"],
        ∀ other ∈ ["content-type", "content-length", "etag", "last-modified"],
          (name != other) = true := by decide
    exact hdistinct name hname _ hother
  refine ⟨later, date, expires, hlater, hdate, hexpires, ?_, ?_⟩
  · rw [List.lookup_append, hfront "date" (by decide)]
    rfl
  · rw [List.lookup_append, hfront "expires" (by decide)]
    rfl

end Http.Response

/-! ### Dates of headers -/

/-- The date of an answer and that of its expiry are as many seconds apart as it may be kept. -/
theorem exists_dates_apart {served : Served} {maxAge : UInt64} {now later : Timestamp}
    (hne : maxAge ≠ 0) (hlater : now.add? (.ofSeconds maxAge) = some later)
    (hnow : now.InYears 1 9999) (hend : later.InYears 1 9999) {response : Response}
    (hresponse : Response.ofServed? served maxAge now = some response) : ∃ date expires d e,
      response.headers.lookup "date" = some date ∧
      response.headers.lookup "expires" = some expires ∧
      dateTimeOf? date = some d ∧ dateTimeOf? expires = some e ∧
      e.secondsBefore = d.secondsBefore + maxAge.toNat := by
  obtain ⟨later', date, expires, hlater', hdate, hexpires, hlookupDate, hlookupExpires⟩ :=
    Response.lookup_ofServed? hne hresponse
  obtain rfl := Option.some.inj (hlater.symm.trans hlater')
  have hreadDate := bind_dateTimeOf?_httpDate? hnow
  have hreadExpires := bind_dateTimeOf?_httpDate? hend
  rw [hdate, Option.bind_some] at hreadDate
  rw [hexpires, Option.bind_some] at hreadExpires
  refine ⟨date, expires, _, _, hlookupDate, hlookupExpires, hreadDate, hreadExpires, ?_⟩
  have hstart := DateTime.secondsBefore_ofSecond (hnow.year_mem (le_refl 1)).1
  have hfinish := DateTime.secondsBefore_ofSecond (hend.year_mem (le_refl 1)).1
  have hlength := Timestamp.second_of_add? hlater
  omega

/-- The date of a point of time in the years 1 to 9999 is read back, by the rules of the calendar, as
the second in which the point lies, and has the right day of the week. So the dates of two seconds
differ, and from the year on they are in the order of the seconds. An answer that may be kept is
built if its source was modified in a year that can be written, and its date and that of its expiry
are as many seconds apart as it may be kept. -/
theorem header_dates_keep_time :
    (∀ t : Timestamp, t.InYears 1 9999 → ∃ text d,
      httpDate? t = some text ∧ dateTimeOf? text = some d ∧ d.InCalendar ∧
      1 ≤ d.date.year ∧ d.date.year ≤ 9999 ∧
      (d.secondsBefore : Int) = t.second + 86400 * daysInYears 1969 ∧
      secondOf? text = some t.second) ∧
    (∀ t u : Timestamp, t.InYears 1 9999 → u.InYears 1 9999 →
      (httpDate? t = httpDate? u ↔ t.second = u.second) ∧
      ∀ d e, (httpDate? t).bind dateTimeOf? = some d → (httpDate? u).bind dateTimeOf? = some e →
        (d.parts < e.parts ↔ t.second < u.second)) ∧
    ∀ (served : Served) (maxAge : UInt64) (now later : Timestamp), maxAge ≠ 0 →
      now.add? (.ofSeconds maxAge) = some later → now.InYears 1 9999 → later.InYears 1 9999 →
      ((∃ response, Response.ofServed? served maxAge now = some response) ↔
        ∀ t, served.lastModified = some t → t.IsWritable) ∧
      ∀ response, Response.ofServed? served maxAge now = some response → ∃ date expires d e,
        response.headers.lookup "date" = some date ∧
        response.headers.lookup "expires" = some expires ∧
        dateTimeOf? date = some d ∧ dateTimeOf? expires = some e ∧
        e.secondsBefore = d.secondsBefore + maxAge.toNat := by
  refine ⟨fun t ht => ?_, fun t u ht hu => ⟨httpDate?_eq_iff ht hu, ?_⟩,
    fun served maxAge now later hne hlater hnow hend => ⟨?_, fun response =>
      exists_dates_apart hne hlater hnow hend⟩⟩
  · obtain ⟨htext, hread, hcalendar⟩ := dateTimeOf?_httpDate? ht
    obtain ⟨hpos, hle⟩ := ht.year_mem (le_refl 1)
    refine ⟨_, _, htext, hread, hcalendar, hpos, hle, ?_, ?_⟩
    · rw [daysInYears_1969]
      exact DateTime.secondsBefore_ofSecond hpos
    · rw [secondOf?, hread, Option.map_some, DateTime.toSecond_ofSecond]
  · rw [bind_dateTimeOf?_httpDate? ht, bind_dateTimeOf?_httpDate? hu]
    rintro d e hd he
    rw [← Option.some.inj hd, ← Option.some.inj he]
    exact DateTime.parts_lt_iff
  · rw [Response.exists_ofServed?_iff]
    refine and_iff_left (Or.inr ⟨hnow.isWritable (le_refl 1) (le_refl 9999), ?_⟩)
    rw [← Timestamp.second_of_add? hlater]
    exact (hend.isWritable (le_refl 1) (le_refl 9999)).2

/-- An answer of the first minute of the year 1970 that may be kept for a minute expires in the
second one. -/
theorem header_dates_keep_time_minute :
    let served : Served := ⟨.text "photo", "image/jpeg", some .epoch, .file⟩
    let later : Timestamp := .ofMillis 60000
    Timestamp.epoch.add? (.ofSeconds 60) = some later ∧ ∃ response date expires d e,
      Response.ofServed? served 60 .epoch = some response ∧
      response.headers.lookup "date" = some date ∧
      response.headers.lookup "expires" = some expires ∧
      dateTimeOf? date = some d ∧ dateTimeOf? expires = some e ∧
      e.secondsBefore = d.secondsBefore + 60 := by
  intro served later
  have hlater : Timestamp.epoch.add? (.ofSeconds 60) = some later := by decide
  have hnow : Timestamp.epoch.InYears 1 9999 := (Timestamp.inYears_iff (by decide)).2 (by decide)
  have hend : later.InYears 1 9999 := (Timestamp.inYears_iff (by decide)).2 (by decide)
  obtain ⟨hbuilt, hapart⟩ :=
    header_dates_keep_time.2.2 served 60 .epoch later (by decide) hlater hnow hend
  obtain ⟨response, hresponse⟩ := hbuilt.2 fun t ht => by
    obtain rfl := Option.some.inj ht
    exact ⟨by decide, by decide⟩
  obtain ⟨date, expires, d, e, h⟩ := hapart response hresponse
  exact ⟨hlater, response, date, expires, d, e, hresponse, h⟩

/-! ### Answers that cannot be built -/

/-- A document that says nothing but an age is accepted, however large the age is. -/
theorem Config.ofText_maxAge {text : String} {maxAge : UInt64}
    (hparse : Json.parse? text = some (.object [("max_age", .number (.natural maxAge))])) :
    ofText text = .ok { default with maxAge } := by
  have hvalid : default.invalid? = none := by decide
  refine ofText_eq_ok_iff.2 ⟨_, hparse, ofMembers?_eq_some_iff.2 ⟨?_, ?_, ?_⟩, hvalid⟩
  · simp [setsOnce_iff, optionMembers, isOption, optionNames]
  · simp [settings, option, Catalog.lookup_cons_eq_ite, readWord, default]
  · simp [otherMembers, isOption, optionNames, Json.sortedMembers, default]

/-- Some engine answers some request so. -/
def Served.IsAnswer (served : Served) : Prop :=
  ∃ (φ γ κ η : Type) (engine : Engine φ γ κ η) (raw : String) (w : World φ γ κ),
    ((engine.serve raw).run.run w).1 = .ok served

/-- A photo that was modified at any time. -/
def Sketching.dated (t : Timestamp) : World MemoryFiles Unit Codec.Sketch.Record where
  files := ⟨Catalog.empty.insert "a.jpg" ⟨.text "A", t, t⟩, t⟩
  cache := ()
  codec := #[]
  sampler := ⟨1, 1⟩

theorem Sketching.reply_dated (t : Timestamp) :
    engine.reply "a.jpg" t (dated t)
      = .ok (Engine.served (.single "a.jpg" (by decide)) (.text "A") (some t) .file) := by
  have hget : (dated t).files.files.get? "a.jpg" = some ⟨.text "A", t, t⟩ := by
    simp [dated]
  have hunpicked : (Sampler.next ⟨1, 1⟩).1 ≠ true := by decide
  have hreply : engine.reply "a.jpg" t (dated t) = _ := (Engine.reply_eq_file rfl rfl
    (RequestPath.ofRequest_single "a.jpg" (by decide)) hget
    (fun hpicked => absurd hpicked hunpicked) t).1
  rw [sourceModified_of_source (by decide)] at hreply
  exact hreply

/-- A source may have been modified at any time. -/
theorem exists_isAnswer (t : Timestamp) :
    ∃ served : Served, served.IsAnswer ∧ served.lastModified = some t :=
  ⟨_, ⟨_, _, _, _, Sketching.engine, "a.jpg", _, Sketching.reply_dated t⟩, rfl⟩

/-- An answer is built if and only if its source was modified in a year that can be written, and so
is the year in which it expires. So the answers of a configuration are all built, whenever they are
given in the years 1970 to 9999, if and only if they may not be kept for too long; but for sources
that were modified outside of the years that can be written, which the file system allows. -/
theorem response_built_iff (config : Config) :
    (∀ (served : Served) (now : Timestamp),
      (∃ response, Response.ofServed? served config.maxAge now = some response) ↔
        (∀ t, served.lastModified = some t → t.IsWritable) ∧
        (config.maxAge = 0 ∨
          now.IsWritable ∧ now.second + config.maxAge.toNat ≤ 8210266876799)) ∧
    ((∀ (served : Served) (now : Timestamp), served.IsAnswer →
        (∀ t, served.lastModified = some t → t.IsWritable) → now.InYears 1970 9999 →
        ∃ response, Response.ofServed? served config.maxAge now = some response) ↔
      config.maxAge.toNat ≤ 7956864576000) ∧
    ∀ t : Timestamp, ∃ served : Served, served.IsAnswer ∧ served.lastModified = some t := by
  have hyears : ∀ now : Timestamp, now.InYears 1970 9999 ↔
      0 ≤ now.second ∧ now.second < 253402300800 := fun now =>
    Timestamp.inYears_iff (by decide)
  refine ⟨fun served now => Response.exists_ofServed?_iff, ⟨fun hbuilt => ?_, fun hle => ?_⟩,
    exists_isAnswer⟩
  · -- The last second of the year 9999 leaves the least time.
    let now : Timestamp := .ofMillis 253402300799000
    obtain ⟨served, hanswer, hmodified⟩ := exists_isAnswer .epoch
    have hresponse := hbuilt served now hanswer
      (fun t ht => by
        obtain rfl := Option.some.inj (hmodified.symm.trans ht)
        exact ⟨by decide, by decide⟩)
      ((hyears now).2 (by decide))
    have hnow : now.second = 253402300799 := by decide
    rcases (Response.exists_ofServed?_iff.1 hresponse).2 with hzero | ⟨-, hend⟩
    · rw [hzero]
      exact Nat.zero_le _
    · omega
  · intro served now _ hmodified hnow
    have hnow := (hyears now).1 hnow
    refine Response.exists_ofServed?_iff.2 ⟨hmodified, Or.inr ⟨?_, by omega⟩⟩
    unfold Timestamp.IsWritable
    omega

/-- With an age of an hour the answer for a photo is built at the start of the year 1970. -/
theorem response_built_iff_hour :
    Config.ofText "\x7b\"max_age\": 3600\x7d" = .ok { Config.default with maxAge := 3600 } ∧
    ∃ served response, Sketching.engine.reply "a.jpg" .epoch (Sketching.dated .epoch) = .ok served ∧
      Response.ofServed? served 3600 .epoch = some response := by
  have hanswer := Sketching.reply_dated .epoch
  obtain ⟨response, hresponse⟩ :=
    (response_built_iff { Config.default with maxAge := 3600 }).2.1.2 (by decide) _ .epoch
      ⟨_, _, _, _, Sketching.engine, "a.jpg", _, hanswer⟩
      (fun t ht => by
        obtain rfl := Option.some.inj ht
        exact ⟨by decide, by decide⟩)
      ((Timestamp.inYears_iff (by decide)).2 (by decide))
  exact ⟨Config.ofText_maxAge (by cbv), _, response, hanswer, hresponse⟩

/-- The largest age is accepted, and then the answer for a photo is not built, as there is no point
of time so much later; neither is it with the age of an empty document, if the photo was modified at
the last point of time with a number of milliseconds. -/
theorem unbounded_age_unbuilt :
    Config.ofText "\x7b\"max_age\": 18446744073709551615\x7d"
        = .ok { Config.default with maxAge := 18446744073709551615 } ∧
    Timestamp.epoch.InYears 1970 9999 ∧
    ((Sketching.engine.reply "a.jpg" .epoch (Sketching.dated .epoch)).toOption.map
      fun served => (Response.ofServed? served 18446744073709551615 .epoch).isSome) = some false ∧
    ((Sketching.engine.reply "a.jpg" .epoch (Sketching.dated (.ofMillis 9223372036854775807))
      ).toOption.map fun served => (Response.ofServed? served 0 .epoch).isSome) = some false := by
  exact ⟨Config.ofText_maxAge (by cbv), (Timestamp.inYears_iff (by decide)).2 (by decide),
    by decide +kernel, by decide +kernel⟩

end Rendition
