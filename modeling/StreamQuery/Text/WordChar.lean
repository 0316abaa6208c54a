import StreamQuery.Text.Alphabetic

/-!
# Word characters

A word character is a letter, a mark, a decimal digit, a connector such as the underscore, or a
joiner. A word boundary lies between two positions of which exactly one is a word character.

The class is that of Unicode 16.0, one version behind the letters of `isAlphabetic`. A letter that
came with 17.0 therefore ends a word, and a mark belongs to a word whether or not it is a letter, so
neither class contains the other.
-/

namespace StreamQuery.Text

/-- The runs of letters that came with Unicode 17.0. -/
def newLetterRuns : List (Nat × Nat) := [
  (2191, 1), (972, 1), (127, 1), (39665, 2), (2, 1), (1, 1), (28, 1), (24910, 26), (1387, 3),
  (50, 2), (3172, 8), (584, 44), (20676, 25), (2, 25), (286, 5), (6145, 8), (1289, 22), (97, 115),
  (22733, 31), (1, 22), (8, 2), (53306, 6), (5986, 12), (21762, 4298)]

set_option maxRecDepth 8000 in
/-- The runs of word characters of Unicode 16.0 that are no letters, from U+0080 on. -/
def markRuns : List (Nat × Nat) := [
  (768, 69), (1, 29), (288, 7), (263, 31), (168, 1), (7, 10), (117, 2), (9, 3), (3, 10), (70, 11),
  (117, 10), (33, 9), (9, 1), (26, 2), (19, 1), (43, 3), (60, 8), (42, 10), (12, 2), (8, 6),
  (76, 1), (16, 1), (3, 4), (17, 10), (76, 1), (16, 1), (24, 10), (14, 1), (61, 1), (16, 1),
  (24, 10), (76, 1), (16, 1), (24, 10), (13, 3), (60, 1), (16, 1), (7, 1), (16, 10), (93, 1),
  (24, 10), (76, 1), (16, 1), (24, 10), (76, 1), (16, 1), (24, 10), (75, 2), (16, 1), (24, 10),
  (90, 1), (27, 10), (87, 6), (1, 1), (1, 10), (96, 1), (13, 5), (1, 1), (1, 10), (62, 2), (6, 10),
  (11, 1), (1, 1), (1, 1), (4, 2), (68, 1), (1, 2), (62, 1), (112, 1), (1, 2), (5, 10), (70, 10),
  (707, 3), (948, 2), (30, 1), (127, 2), (19, 11), (9, 1), (2, 10), (33, 3), (1, 11), (287, 3),
  (10, 10), (128, 10), (134, 1), (20, 8), (2, 11), (6, 10), (22, 15), (2, 11), (104, 1), (15, 1),
  (11, 10), (17, 9), (54, 2), (4, 10), (44, 1), (11, 2), (67, 1), (8, 10), (6, 10), (118, 3),
  (1, 21), (4, 1), (6, 1), (2, 3), (198, 19), (34, 11), (524, 2), (49, 2), (19, 1), (123, 33),
  (3070, 3), (141, 1), (682, 6), (105, 2), (30085, 10), (69, 4), (9, 2), (114, 2), (276, 1),
  (37, 1), (151, 1), (11, 10), (6, 18), (14, 10), (33, 3), (37, 1), (95, 1), (12, 1), (15, 10),
  (22, 10), (86, 10), (101, 1), (1, 1), (52, 1), (245, 2), (2, 10), (20998, 16), (16, 16), (3, 2),
  (24, 3), (192, 10), (37, 1), (701, 1), (226, 1), (447, 10), (1422, 3), (4, 1), (165, 2),
  (585, 10), (6, 10), (32, 4), (399, 3), (70, 11), (49, 4), (192, 1), (31, 11), (14, 1), (57, 2),
  (53, 10), (57, 2), (1, 10), (51, 1), (76, 1), (8, 4), (3, 10), (91, 2), (178, 2), (5, 10),
  (65, 2), (16, 1), (24, 7), (3, 5), (89, 3), (1, 1), (14, 2), (95, 1), (3, 1), (9, 10), (4, 1),
  (99, 2), (12, 10), (229, 2), (126, 1), (16, 10), (92, 2), (8, 10), (6, 20), (71, 1), (4, 10),
  (255, 2), (165, 10), (83, 2), (4, 1), (12, 10), (134, 1), (82, 2), (18, 1), (80, 2), (342, 10),
  (69, 1), (16, 10), (232, 1), (1, 2), (10, 10), (61, 1), (8, 10), (407, 2), (13, 11), (5349, 1),
  (6, 15), (11481, 11), (2342, 10), (86, 10), (38, 5), (59, 7), (25, 10), (534, 10), (618, 1),
  (19640, 1), (4178, 10), (518, 46), (2, 23), (542, 5), (3, 6), (8, 8), (2, 7), (30, 4), (148, 3),
  (1417, 50), (512, 55), (4, 50), (8, 1), (14, 1), (22, 5), (1, 15), (1664, 7), (9, 10), (356, 1),
  (61, 14), (498, 14), (244, 2), (1, 10), (725, 7), (109, 3), (1, 3), (5, 10), (4758, 10),
  (787718, 240)]

/-- Word characters. -/
def isWord (c : Char) : Bool :=
  if c.toNat < 0x80 then c.isAlphanum || c == '_'
  else isAlphabetic c && !inRuns newLetterRuns c.toNat || inRuns markRuns c.toNat

/-- True when a text starts with a word character. -/
def startsWord (s : List Char) : Bool :=
  s.head?.any isWord

/-- True when the position between `before`, read backwards, and `rest` is a word boundary. -/
def wordBoundary (before rest : List Char) : Bool :=
  startsWord before != startsWord rest

end StreamQuery.Text
