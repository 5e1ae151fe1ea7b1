import Versioning.Json

/-!
# Reference

The published descriptions of the types, and the schemas of those that JSON writes as strings.
-/

namespace Versioning

inductive Topic
  | component
  | prerelease
  | build
  | version
  | exact
  | pattern
  | range
deriving DecidableEq

namespace Topic

def all : List Topic :=
  [component, prerelease, build, version, exact, pattern, range]

def name : Topic → String
  | component => "VersionComponent"
  | prerelease => "Prerelease"
  | build => "Build"
  | version => "Version"
  | exact => "ExactVersion"
  | pattern => "WildcardVersion"
  | range => "Range"

def ofName? (s : String) : Option Topic :=
  all.find? fun t => t.name == s

def lines : Topic → List String
  | component =>
    ["A single numeric slot of a version: major, minor, or patch.",
      "",
      "- `Number` is a concrete non-negative value.",
      "- `Absent` means the slot was left out, as the patch in `1.2`.",
      "- `Wildcard` means the slot was given as `*`, `x`, or `X`.",
      "",
      "Components deliberately do not implement [`Ord`]:",
      "a wildcard compares equal to every other component,",
      "which is not a total order. Use [`VersionComponent::compare`] instead."]
  | prerelease =>
    ["The prerelease tag of a version: the part after `-` in `1.0.0-beta.2`.",
      "",
      "Tags are made up of dot separated segments.",
      "The last purely numeric segment is the tag's `version`;",
      "the segments before it form the `prefix` and those after it the `suffix`:",
      "",
      "| tag                                 | prefix         | version | suffix              |",
      "|-------------------------------------|----------------|---------|---------------------|",
      "| `beta.nightly.14.unstable.untested` | `beta.nightly` | `14`    | `unstable.untested` |",
      "| `3.5.beta`                          | `3`            | `5`     | `beta`              |",
      "| `23.M13.unstable`                   |                | `23`    | `M13.unstable`      |",
      "| `alpha`                             | `alpha`        |         |                     |",
      "",
      "Numeric segments with leading zeros (such as `007`) are treated as text.",
      "",
      "An `Identifier` with all three parts absent is the same as `None`:",
      "it compares, hashes, and renders identically.",
      "",
      "## Ordering",
      "",
      "`None` is greater than every tag, since a version without a prerelease is a release.",
      "Two tags compare by prefix, then version, then suffix;",
      "[`Prerelease::compare`] reports which part decided the result."]
  | build =>
    ["Build metadata: the part after `+` in `1.0.0+20250101`.",
      "",
      "Metadata is opaque. It orders by ordinal string comparison,",
      "with no metadata sorting before any metadata,",
      "and only breaks ties between versions that are otherwise equal."]
  | version =>
    ["A version: either an exact version or a wildcard pattern.",
      "",
      "Equality and ordering compare major, minor, patch, prerelease, and build in turn.",
      "A wildcard component compares equal to anything,",
      "so across patterns the ordering is only a preorder.",
      "",
      "```",
      "# use relaxed_semver::Version;",
      "let release = Version::parse(\"1.0.0\")?;",
      "let prerelease = Version::parse(\"1.0.0-alpha\")?;",
      "assert!(prerelease < release);",
      "",
      "assert_eq!(Version::parse(\"1.2.7\")?.next_breaking_change().to_string(), \"2.0.0\");",
      "assert_eq!(Version::parse(\"0.4.2\")?.next_breaking_change().to_string(), \"0.5.0\");",
      "assert_eq!(Version::parse(\"0.0.3\")?.next_breaking_change().to_string(), \"0.0.4\");",
      "# Ok::<(), relaxed_semver::Error>(())",
      "```"]
  | exact =>
    ["A concrete version such as `1.2.3-beta.1+42`, `1.2`, or `3`.",
      "",
      "Minor and patch may be left out, but only from the end:",
      "a patch cannot be given without a minor."]
  | pattern =>
    ["A version pattern such as `1.2.*`, `2.x`, `1.2`, or `3`.",
      "",
      "The major is always a number.",
      "Minor may be a number, a wildcard, or absent; patch may be a wildcard or absent.",
      "Patterns never carry prerelease or build metadata."]
  | range =>
    ["A set of versions.",
      "",
      "```",
      "# use relaxed_semver::\x7bRange, Version\x7d;",
      "let range = Range::parse(\"8.x - 10.X\")?;",
      "assert!(range.satisfied_by(&Version::parse(\"9.5.5\")?));",
      "",
      "let range = Range::parse(\"~3.0.23-4.beta\")?;",
      "assert!(range.satisfied_by(&Version::parse(\"3.0.23-5.alpha\")?));",
      "assert!(!range.satisfied_by(&Version::parse(\"3.0.23-3.beta\")?));",
      "",
      "let range = Range::parse(\"^=1.2.4\")?;",
      "assert!(range.satisfied_by(&Version::parse(\"1.2.4\")?));",
      "assert!(!range.satisfied_by(&Version::parse(\"1.3.0\")?));",
      "# Ok::<(), relaxed_semver::Error>(())",
      "```",
      "",
      "## Serialization",
      "",
      "Ranges serialize structurally with `kind` and `value` fields;",
      "they are not serialized as range expressions."]

def description (t : Topic) : String :=
  "\n".intercalate t.lines

/-- Texts of the type, for the types that have a schema. -/
def examples? : Topic → Option (List String)
  | prerelease => some ["beta.2", "rc.1", "M6.beta.13.nightly"]
  | build => some ["20250101", "exp.sha.5114f85"]
  | version => some ["1.2.3", "1.2.3-beta.4+exp.sha.5114f85", "1.2", "2.x"]
  | _ => none

def schema? (t : Topic) : Option Json :=
  t.examples?.map fun examples =>
    .object [("description", .string t.description), ("examples", .array (examples.map .string)),
      ("type", .string "string")]

end Topic

end Versioning
