/-!
# Upper case

The full upper-case mapping of Unicode: most characters have one counterpart, some are written with
several characters, and all others stay as they are.

## Main definitions

* `CaseRun`: code points at a fixed distance from their counterparts.
* `upper`: the upper-case form of a character.
-/

namespace Typings.Text

/-- The code points `first`, `first + step`, …, `last` and the counterpart of the first of them; the
counterparts are `step` apart as well. -/
structure CaseRun where
  first : Nat
  last : Nat
  step : Nat
  target : Nat

/-- A code point with its counterpart. -/
def CaseRun.single (n target : Nat) : CaseRun where
  first := n
  last := n
  step := 1
  target := target

/-- The counterpart of `n` if `n` lies on the run. -/
def CaseRun.counterpart? (run : CaseRun) (n : Nat) : Option Nat :=
  if run.first ≤ n ∧ n ≤ run.last ∧ (n - run.first) % run.step = 0 then
    some (run.target + (n - run.first))
  else
    none

/-- The characters with one upper-case counterpart. -/
def caseRuns : List CaseRun :=
  [⟨0x61, 0x7a, 1, 0x41⟩, .single 0xb5 0x39c, ⟨0xe0, 0xf6, 1, 0xc0⟩, ⟨0xf8, 0xfe, 1, 0xd8⟩,
   .single 0xff 0x178, ⟨0x101, 0x12f, 2, 0x100⟩, .single 0x131 0x49, ⟨0x133, 0x137, 2, 0x132⟩,
   ⟨0x13a, 0x148, 2, 0x139⟩, ⟨0x14b, 0x177, 2, 0x14a⟩, ⟨0x17a, 0x17e, 2, 0x179⟩, .single 0x17f 0x53,
   .single 0x180 0x243, ⟨0x183, 0x185, 2, 0x182⟩, .single 0x188 0x187, .single 0x18c 0x18b,
   .single 0x192 0x191, .single 0x195 0x1f6, .single 0x199 0x198, .single 0x19a 0x23d,
   .single 0x19b 0xa7dc, .single 0x19e 0x220, ⟨0x1a1, 0x1a5, 2, 0x1a0⟩, .single 0x1a8 0x1a7,
   .single 0x1ad 0x1ac, .single 0x1b0 0x1af, ⟨0x1b4, 0x1b6, 2, 0x1b3⟩, .single 0x1b9 0x1b8,
   .single 0x1bd 0x1bc, .single 0x1bf 0x1f7, .single 0x1c5 0x1c4, .single 0x1c6 0x1c4,
   .single 0x1c8 0x1c7, .single 0x1c9 0x1c7, .single 0x1cb 0x1ca, .single 0x1cc 0x1ca,
   ⟨0x1ce, 0x1dc, 2, 0x1cd⟩, .single 0x1dd 0x18e, ⟨0x1df, 0x1ef, 2, 0x1de⟩, .single 0x1f2 0x1f1,
   .single 0x1f3 0x1f1, .single 0x1f5 0x1f4, ⟨0x1f9, 0x21f, 2, 0x1f8⟩, ⟨0x223, 0x233, 2, 0x222⟩,
   .single 0x23c 0x23b, ⟨0x23f, 0x240, 1, 0x2c7e⟩, .single 0x242 0x241, ⟨0x247, 0x24f, 2, 0x246⟩,
   .single 0x250 0x2c6f, .single 0x251 0x2c6d, .single 0x252 0x2c70, .single 0x253 0x181,
   .single 0x254 0x186, ⟨0x256, 0x257, 1, 0x189⟩, .single 0x259 0x18f, .single 0x25b 0x190,
   .single 0x25c 0xa7ab, .single 0x260 0x193, .single 0x261 0xa7ac, .single 0x263 0x194,
   .single 0x264 0xa7cb, .single 0x265 0xa78d, .single 0x266 0xa7aa, .single 0x268 0x197,
   .single 0x269 0x196, .single 0x26a 0xa7ae, .single 0x26b 0x2c62, .single 0x26c 0xa7ad,
   .single 0x26f 0x19c, .single 0x271 0x2c6e, .single 0x272 0x19d, .single 0x275 0x19f,
   .single 0x27d 0x2c64, .single 0x280 0x1a6, .single 0x282 0xa7c5, .single 0x283 0x1a9,
   .single 0x287 0xa7b1, .single 0x288 0x1ae, .single 0x289 0x244, ⟨0x28a, 0x28b, 1, 0x1b1⟩,
   .single 0x28c 0x245, .single 0x292 0x1b7, .single 0x29d 0xa7b2, .single 0x29e 0xa7b0,
   .single 0x345 0x399, ⟨0x371, 0x373, 2, 0x370⟩, .single 0x377 0x376, ⟨0x37b, 0x37d, 1, 0x3fd⟩,
   .single 0x3ac 0x386, ⟨0x3ad, 0x3af, 1, 0x388⟩, ⟨0x3b1, 0x3c1, 1, 0x391⟩, .single 0x3c2 0x3a3,
   ⟨0x3c3, 0x3cb, 1, 0x3a3⟩, .single 0x3cc 0x38c, ⟨0x3cd, 0x3ce, 1, 0x38e⟩, .single 0x3d0 0x392,
   .single 0x3d1 0x398, .single 0x3d5 0x3a6, .single 0x3d6 0x3a0, .single 0x3d7 0x3cf,
   ⟨0x3d9, 0x3ef, 2, 0x3d8⟩, .single 0x3f0 0x39a, .single 0x3f1 0x3a1, .single 0x3f2 0x3f9,
   .single 0x3f3 0x37f, .single 0x3f5 0x395, .single 0x3f8 0x3f7, .single 0x3fb 0x3fa,
   ⟨0x430, 0x44f, 1, 0x410⟩, ⟨0x450, 0x45f, 1, 0x400⟩, ⟨0x461, 0x481, 2, 0x460⟩,
   ⟨0x48b, 0x4bf, 2, 0x48a⟩, ⟨0x4c2, 0x4ce, 2, 0x4c1⟩, .single 0x4cf 0x4c0,
   ⟨0x4d1, 0x52f, 2, 0x4d0⟩, ⟨0x561, 0x586, 1, 0x531⟩, ⟨0x10d0, 0x10fa, 1, 0x1c90⟩,
   ⟨0x10fd, 0x10ff, 1, 0x1cbd⟩, ⟨0x13f8, 0x13fd, 1, 0x13f0⟩, .single 0x1c80 0x412,
   .single 0x1c81 0x414, .single 0x1c82 0x41e, ⟨0x1c83, 0x1c84, 1, 0x421⟩, .single 0x1c85 0x422,
   .single 0x1c86 0x42a, .single 0x1c87 0x462, .single 0x1c88 0xa64a, .single 0x1c8a 0x1c89,
   .single 0x1d79 0xa77d, .single 0x1d7d 0x2c63, .single 0x1d8e 0xa7c6, ⟨0x1e01, 0x1e95, 2, 0x1e00⟩,
   .single 0x1e9b 0x1e60, ⟨0x1ea1, 0x1eff, 2, 0x1ea0⟩, ⟨0x1f00, 0x1f07, 1, 0x1f08⟩,
   ⟨0x1f10, 0x1f15, 1, 0x1f18⟩, ⟨0x1f20, 0x1f27, 1, 0x1f28⟩, ⟨0x1f30, 0x1f37, 1, 0x1f38⟩,
   ⟨0x1f40, 0x1f45, 1, 0x1f48⟩, ⟨0x1f51, 0x1f57, 2, 0x1f59⟩, ⟨0x1f60, 0x1f67, 1, 0x1f68⟩,
   ⟨0x1f70, 0x1f71, 1, 0x1fba⟩, ⟨0x1f72, 0x1f75, 1, 0x1fc8⟩, ⟨0x1f76, 0x1f77, 1, 0x1fda⟩,
   ⟨0x1f78, 0x1f79, 1, 0x1ff8⟩, ⟨0x1f7a, 0x1f7b, 1, 0x1fea⟩, ⟨0x1f7c, 0x1f7d, 1, 0x1ffa⟩,
   ⟨0x1fb0, 0x1fb1, 1, 0x1fb8⟩, .single 0x1fbe 0x399, ⟨0x1fd0, 0x1fd1, 1, 0x1fd8⟩,
   ⟨0x1fe0, 0x1fe1, 1, 0x1fe8⟩, .single 0x1fe5 0x1fec, .single 0x214e 0x2132,
   ⟨0x2170, 0x217f, 1, 0x2160⟩, .single 0x2184 0x2183, ⟨0x24d0, 0x24e9, 1, 0x24b6⟩,
   ⟨0x2c30, 0x2c5f, 1, 0x2c00⟩, .single 0x2c61 0x2c60, .single 0x2c65 0x23a, .single 0x2c66 0x23e,
   ⟨0x2c68, 0x2c6c, 2, 0x2c67⟩, .single 0x2c73 0x2c72, .single 0x2c76 0x2c75,
   ⟨0x2c81, 0x2ce3, 2, 0x2c80⟩, ⟨0x2cec, 0x2cee, 2, 0x2ceb⟩, .single 0x2cf3 0x2cf2,
   ⟨0x2d00, 0x2d25, 1, 0x10a0⟩, .single 0x2d27 0x10c7, .single 0x2d2d 0x10cd,
   ⟨0xa641, 0xa66d, 2, 0xa640⟩, ⟨0xa681, 0xa69b, 2, 0xa680⟩, ⟨0xa723, 0xa72f, 2, 0xa722⟩,
   ⟨0xa733, 0xa76f, 2, 0xa732⟩, ⟨0xa77a, 0xa77c, 2, 0xa779⟩, ⟨0xa77f, 0xa787, 2, 0xa77e⟩,
   .single 0xa78c 0xa78b, ⟨0xa791, 0xa793, 2, 0xa790⟩, .single 0xa794 0xa7c4,
   ⟨0xa797, 0xa7a9, 2, 0xa796⟩, ⟨0xa7b5, 0xa7c3, 2, 0xa7b4⟩, ⟨0xa7c8, 0xa7ca, 2, 0xa7c7⟩,
   ⟨0xa7cd, 0xa7db, 2, 0xa7cc⟩, .single 0xa7f6 0xa7f5, .single 0xab53 0xa7b3,
   ⟨0xab70, 0xabbf, 1, 0x13a0⟩, ⟨0xff41, 0xff5a, 1, 0xff21⟩, ⟨0x10428, 0x1044f, 1, 0x10400⟩,
   ⟨0x104d8, 0x104fb, 1, 0x104b0⟩, ⟨0x10597, 0x105a1, 1, 0x10570⟩, ⟨0x105a3, 0x105b1, 1, 0x1057c⟩,
   ⟨0x105b3, 0x105b9, 1, 0x1058c⟩, ⟨0x105bb, 0x105bc, 1, 0x10594⟩, ⟨0x10cc0, 0x10cf2, 1, 0x10c80⟩,
   ⟨0x10d70, 0x10d85, 1, 0x10d50⟩, ⟨0x118c0, 0x118df, 1, 0x118a0⟩, ⟨0x16e60, 0x16e7f, 1, 0x16e40⟩,
   ⟨0x16ebb, 0x16ed3, 1, 0x16ea0⟩, ⟨0x1e922, 0x1e943, 1, 0x1e900⟩]

/-- The characters whose upper-case form takes several characters. -/
def caseExpansions : List (Nat × List Nat) :=
  [(0xdf, [0x53, 0x53]), (0x149, [0x2bc, 0x4e]), (0x1f0, [0x4a, 0x30c]),
   (0x390, [0x399, 0x308, 0x301]), (0x3b0, [0x3a5, 0x308, 0x301]), (0x587, [0x535, 0x552]),
   (0x1e96, [0x48, 0x331]), (0x1e97, [0x54, 0x308]), (0x1e98, [0x57, 0x30a]),
   (0x1e99, [0x59, 0x30a]), (0x1e9a, [0x41, 0x2be]), (0x1f50, [0x3a5, 0x313]),
   (0x1f52, [0x3a5, 0x313, 0x300]), (0x1f54, [0x3a5, 0x313, 0x301]),
   (0x1f56, [0x3a5, 0x313, 0x342]), (0x1fb2, [0x1fba, 0x399]), (0x1fb3, [0x391, 0x399]),
   (0x1fb4, [0x386, 0x399]), (0x1fb6, [0x391, 0x342]), (0x1fb7, [0x391, 0x342, 0x399]),
   (0x1fbc, [0x391, 0x399]), (0x1fc2, [0x1fca, 0x399]), (0x1fc3, [0x397, 0x399]),
   (0x1fc4, [0x389, 0x399]), (0x1fc6, [0x397, 0x342]), (0x1fc7, [0x397, 0x342, 0x399]),
   (0x1fcc, [0x397, 0x399]), (0x1fd2, [0x399, 0x308, 0x300]), (0x1fd3, [0x399, 0x308, 0x301]),
   (0x1fd6, [0x399, 0x342]), (0x1fd7, [0x399, 0x308, 0x342]), (0x1fe2, [0x3a5, 0x308, 0x300]),
   (0x1fe3, [0x3a5, 0x308, 0x301]), (0x1fe4, [0x3a1, 0x313]), (0x1fe6, [0x3a5, 0x342]),
   (0x1fe7, [0x3a5, 0x308, 0x342]), (0x1ff2, [0x1ffa, 0x399]), (0x1ff3, [0x3a9, 0x399]),
   (0x1ff4, [0x38f, 0x399]), (0x1ff6, [0x3a9, 0x342]), (0x1ff7, [0x3a9, 0x342, 0x399]),
   (0x1ffc, [0x3a9, 0x399]), (0xfb00, [0x46, 0x46]), (0xfb01, [0x46, 0x49]), (0xfb02, [0x46, 0x4c]),
   (0xfb03, [0x46, 0x46, 0x49]), (0xfb04, [0x46, 0x46, 0x4c]), (0xfb05, [0x53, 0x54]),
   (0xfb06, [0x53, 0x54]), (0xfb13, [0x544, 0x546]), (0xfb14, [0x544, 0x535]),
   (0xfb15, [0x544, 0x53b]), (0xfb16, [0x54e, 0x546]), (0xfb17, [0x544, 0x53d])] ++
  -- the Greek letters with an iota below them, in lower case and in title case
  [(0x1f80, 0x1f08), (0x1f90, 0x1f28), (0x1fa0, 0x1f68)].flatMap fun (first, target) =>
    (List.range 16).map fun i => (first + i, [target + i % 8, 0x399])

/-- The upper-case form of a character. -/
def upper (c : Char) : List Char :=
  match caseExpansions.lookup c.toNat with
  | some form => form.map Char.ofNat
  | none =>
    match caseRuns.findSome? (·.counterpart? c.toNat) with
    | some n => [Char.ofNat n]
    | none => [c]

end Typings.Text
